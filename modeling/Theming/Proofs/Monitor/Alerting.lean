import Theming.Monitor.State

set_option autoImplicit false

/-! # Badges and alerts

A sample raises the alerts of all thresholds that are for its metric, while its badge is the grade by
the first of them. So a badge that alarms comes with an alert of the same grade, the first one
(`head?_alertsFor`), but an alert may come from a later threshold and leave no trace in the badge.
`raised_iff_badge` says when the two differ: never for a metric that is watched by one threshold
only, nor for any metric where no threshold is for the metric of another one, as in the thresholds
that a monitor starts with (`raised_iff_badge_usual`). Where two thresholds are for one metric, they
may differ (`raised_without_badge`). -/

namespace Theming

namespace Monitor

variable {t u : Threshold} {thresholds : Table Threshold} {metric : String} {value : Float}
  {sample : Sample}

/-! ## Thresholds for a metric -/

theorem Threshold.appliesTo_iff : t.appliesTo metric = true ↔
    metric = t.metric ∨ '_' :: t.metric.toList <:+ metric.toList := by
  rw [Threshold.appliesTo, Bool.or_eq_true, beq_iff_eq]
  refine or_congr_right ?_
  cases hcut : Text.dropSuffix? t.metric.toList metric.toList with
  | none =>
    refine iff_of_false Bool.false_ne_true fun ⟨before, heq⟩ => ?_
    rw [List.append_cons] at heq
    rw [Text.dropSuffix?_eq_some_iff.2 heq.symm] at hcut
    cases hcut
  | some before =>
    have hends : Text.endsWith ['_'] before = true ↔ ['_'] <:+ before := by
      simp only [Text.endsWith, Option.isSome_iff_exists, Text.dropSuffix?_eq_some_iff]
      exact exists_congr fun component => eq_comm
    rw [Text.dropSuffix?_eq_some_iff.1 hcut]
    exact hends.trans List.suffix_append_self_iff.symm

/-- Of two thresholds for a metric, one is for the metric of the other. -/
theorem Threshold.appliesTo_metric (ht : t.appliesTo metric = true)
    (hu : u.appliesTo metric = true) :
    t.appliesTo u.metric = true ∨ u.appliesTo t.metric = true := by
  have hnested : ∀ {t u : Threshold}, '_' :: t.metric.toList <:+ '_' :: u.metric.toList →
      t.appliesTo u.metric = true := by
    intro t u h
    rw [appliesTo_iff]
    rcases List.suffix_cons_iff.1 h with heq | hafter
    · exact Or.inl (String.toList_inj.1 (List.cons.inj heq).2).symm
    · exact Or.inr hafter
  rcases appliesTo_iff.1 ht with rfl | hafter
  · exact Or.inr hu
  rcases appliesTo_iff.1 hu with rfl | hafter'
  · exact Or.inl ht
  -- Both names stand at the end of the metric, so the shorter one is at the end of the longer one.
  exact (List.suffix_or_suffix_of_suffix hafter hafter').imp hnested hnested

/-- The thresholds for a metric, in order. -/
def watching (thresholds : Table Threshold) (metric : String) : List Threshold :=
  (thresholds.map (·.2)).filter (fun t => t.appliesTo metric)

theorem mem_watching_iff : t ∈ watching thresholds metric ↔
    t ∈ thresholds.map (·.2) ∧ t.appliesTo metric = true := List.mem_filter

/-- The badge is the grade by the first of them. -/
theorem gradeIn_eq : gradeIn thresholds metric value =
    (watching thresholds metric).head?.map (fun t => t.grade value) := by
  rw [gradeIn, watching, List.head?_filter]

/-! ## Alerts for a sample -/

/-- A threshold for the metric raises an alert if its grade alarms. -/
theorem Threshold.alert?_eq (h : t.appliesTo sample.name = true) :
    t.alert? sample = if (t.grade sample.value).alarms then
      some ⟨t.grade sample.value, sample.name, sample.value, sample.unit, t.warning, t.critical⟩
    else none := by
  rw [Threshold.alert?, h, Bool.true_and]

/-- All of them are asked for alerts. -/
theorem alertsFor_singleton : alertsFor thresholds [sample] =
    (watching thresholds sample.name).filterMap (fun t => t.alert? sample) := by
  have hasked : (fun t : Threshold => t.alert? sample) = fun t =>
      if t.appliesTo sample.name = true then t.alert? sample else none := by
    funext t
    split
    · rfl
    · next h => simp [Threshold.alert?, h]
  rw [alertsFor, List.flatMap_singleton, watching, List.filterMap_filter, ← hasked,
    List.filterMap_map]
  rfl

theorem alertsFor_ne_nil_iff : alertsFor thresholds [sample] ≠ [] ↔
    ∃ t ∈ watching thresholds sample.name, (t.grade sample.value).alarms = true := by
  have hasked : ∀ t ∈ watching thresholds sample.name,
      (t.alert? sample ≠ none ↔ (t.grade sample.value).alarms = true) := by
    intro t ht
    rw [Threshold.alert?_eq (mem_watching_iff.1 ht).2]
    cases (t.grade sample.value).alarms <;> simp
  rw [alertsFor_singleton, ne_eq, List.filterMap_eq_nil_iff]
  simp only [Classical.not_forall, exists_prop]
  exact exists_congr fun t => and_congr_right (hasked t)

/-- A badge that alarms is the grade of the first alert. -/
theorem head?_alertsFor {grade : Grade} (h : gradeIn thresholds sample.name sample.value = some grade)
    (halarms : grade.alarms = true) :
    (alertsFor thresholds [sample]).head?.map Alert.grade = some grade := by
  rw [gradeIn_eq, Option.map_eq_some_iff] at h
  obtain ⟨first, hfirst, rfl⟩ := h
  obtain ⟨later, hwatching⟩ := List.head?_eq_some_iff.1 hfirst
  have happlies := (mem_watching_iff.1 (List.mem_of_head? hfirst)).2
  rw [alertsFor_singleton, hwatching, List.filterMap_cons, Threshold.alert?_eq happlies, halarms]
  rfl

/-! ## Badges beside alerts -/

/-- Whether a badge alarms is up to the first threshold for the metric. -/
theorem any_gradeIn : (gradeIn thresholds metric value).any Grade.alarms =
    (watching thresholds metric).head?.any (fun t => (t.grade value).alarms) := by
  rw [gradeIn_eq, Option.any_map]

/-- Some threshold satisfies `p` without the first one doing so. -/
theorem exists_and_not_head?_iff {p : Threshold → Bool} {ts : List Threshold} :
    ((∃ t ∈ ts, p t = true) ∧ ¬ ts.head?.any p = true) ↔
      ∃ first later, ts = first :: later ∧ p first = false ∧ ∃ t ∈ later, p t = true := by
  constructor
  · rintro ⟨⟨t, ht, hp⟩, hnot⟩
    obtain ⟨first, later, rfl⟩ := List.exists_cons_of_ne_nil (List.ne_nil_of_mem ht)
    rcases List.mem_cons.1 ht with rfl | hlater
    · exact absurd hp hnot
    · exact ⟨first, later, rfl, by simpa using hnot, t, hlater, hp⟩
  · rintro ⟨first, later, rfl, hfirst, t, hlater, hp⟩
    exact ⟨⟨t, List.mem_cons_of_mem first hlater, hp⟩, by simp [hfirst]⟩

/-- No threshold is for the metric of another one. -/
def Apart (thresholds : Table Threshold) : Prop :=
  ∀ t ∈ thresholds.map (·.2), ∀ u ∈ thresholds.map (·.2), t.appliesTo u.metric = true → t = u

instance (thresholds : Table Threshold) : Decidable (Apart thresholds) :=
  inferInstanceAs (Decidable (∀ t ∈ thresholds.map (·.2), ∀ u ∈ thresholds.map (·.2),
    t.appliesTo u.metric = true → t = u))

theorem apart_usualThresholds : Apart usualThresholds := by decide +kernel

theorem Apart.eq_of_mem_watching (h : Apart thresholds) (ht : t ∈ watching thresholds metric)
    (hu : u ∈ watching thresholds metric) : t = u := by
  obtain ⟨htmem, ht⟩ := mem_watching_iff.1 ht
  obtain ⟨humem, hu⟩ := mem_watching_iff.1 hu
  rcases Threshold.appliesTo_metric ht hu with htu | hut
  · exact h t htmem u humem htu
  · exact (h u humem t htmem hut).symm

/-- **A badge that alarms comes with an alert**, and the first alert has its grade. The other way
    round, an alert comes without such a badge exactly if the first threshold for the metric does not
    alarm and a later one does, which needs a threshold for the metric of another one. -/
theorem raised_iff_badge (m : Monitor) (sample : Sample) (host : Host)
    (henabled : m.settings.raisesAlerts = true) :
    let raised := (m.ingest ⟨[sample], host⟩).1
    let badge := m.classify sample.name sample.value
    let alarming := fun t : Threshold => (t.grade sample.value).alarms
    (raised ≠ [] ↔ ∃ t ∈ watching m.thresholds sample.name, alarming t = true) ∧
      (∀ grade, badge = some grade → grade.alarms = true →
        raised.head?.map Alert.grade = some grade) ∧
      ((raised ≠ [] ∧ ¬ badge.any Grade.alarms = true) ↔
        ∃ first later, watching m.thresholds sample.name = first :: later ∧
          alarming first = false ∧ ∃ t ∈ later, alarming t = true) ∧
      (Apart m.thresholds → (raised ≠ [] ↔ badge.any Grade.alarms = true)) := by
  dsimp only
  have hraised : (m.ingest ⟨[sample], host⟩).1 = alertsFor m.thresholds [sample] := by
    rw [ingest, henabled]
    rfl
  rw [hraised, alertsFor_ne_nil_iff, classify, any_gradeIn]
  refine ⟨Iff.rfl, fun grade => head?_alertsFor, exists_and_not_head?_iff, fun hapart => ?_⟩
  constructor
  · intro halarm
    refine Decidable.byContradiction fun hbadge => ?_
    obtain ⟨first, later, hwatching, hfirst, t, ht, hlater⟩ :=
      exists_and_not_head?_iff.1 ⟨halarm, hbadge⟩
    have hmem : ∀ u ∈ first :: later, u ∈ watching m.thresholds sample.name := fun u hu =>
      hwatching ▸ hu
    have hsame := hapart.eq_of_mem_watching (hmem t (List.mem_cons_of_mem _ ht))
      (hmem first List.mem_cons_self)
    rw [hsame, hfirst] at hlater
    cases hlater
  · intro hbadge
    obtain ⟨first, hfirst, halarms⟩ := (Option.any_eq_true _ _).1 hbadge
    exact ⟨first, List.mem_of_head? hfirst, halarms⟩

/-- The usual thresholds are apart, and one of them is for this metric of a component. -/
theorem raised_iff_badge_usual :
    let m := Monitor.start default
    let sample := Sample.ofValue "dynamic_cpu_usage" 95.0 (some "dynamic")
    m.settings.raisesAlerts = true ∧ Apart m.thresholds ∧
      (m.classify sample.name sample.value).any Grade.alarms = true ∧
      (m.ingest ⟨[sample], Host.unknown⟩).1 ≠ [] := by
  have hbadge : ((Monitor.start default).classify "dynamic_cpu_usage" 95.0).any Grade.alarms =
      true := by
    decide +kernel
  have hagree := raised_iff_badge (Monitor.start default)
    (Sample.ofValue "dynamic_cpu_usage" 95.0 (some "dynamic")) Host.unknown rfl
  exact ⟨rfl, apart_usualThresholds, hbadge, (hagree.2.2.2 apart_usualThresholds).2 hbadge⟩

/-- The first threshold for the metric is that of the processor time, which the value does not come
    near; a later one is for the usage of anything. -/
theorem raised_without_badge :
    let m := (Monitor.start default).withThreshold ⟨"usage", 10.0, 20.0, .greater⟩
    let sample := Sample.ofValue "dynamic_cpu_usage" 50.0 (some "dynamic")
    ¬ ((m.ingest ⟨[sample], Host.unknown⟩).1 ≠ [] ↔
      (m.classify sample.name sample.value).any Grade.alarms = true) := by
  decide +kernel

end Monitor

end Theming
