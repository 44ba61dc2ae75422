import Mathlib.Algebra.GroupWithZero.Nat
import Theming.Monitor.State

set_option autoImplicit false

/-! # What a monitor keeps of its history

A monitor keeps the last samples and snapshots up to limits that may change while it works, and it
counts operations twice, one by one and altogether. A `Journal` forgets nothing until the history is
cleared: it is written down beside a run and read by no operation. What is kept is compared with it
(`Kept`): it is the end of what was produced, and it goes back as far as all limits since then allow.

One action keeps this up (`Faithful.step`), so it holds after every run (`faithful_run`). The main
result is `history_run`. -/

namespace Theming

/-! ## Sums over tables -/

namespace Table

variable {α : Type}

/-- The sum after an insertion and the replaced value make up the sum before and the new value. -/
theorem sum_insert (name : String) (value : α) {t : Table α} (f : α → Nat) (h : Ordered t) :
    ((insert name value t).map (fun entry => f entry.2)).sum + ((find? name t).map f).getD 0 =
      (t.map (fun entry => f entry.2)).sum + f value := by
  induction t with
  | nil => simp [insert, find?]
  | cons head rest ih =>
    obtain ⟨key, old⟩ := head
    obtain ⟨hhead, hrest⟩ := List.pairwise_cons.1 h
    by_cases hk : name = key
    · simp only [insert, find?, hk, if_true, List.map_cons, List.sum_cons, Option.map_some,
        Option.getD_some]
      omega
    · by_cases hl : name < key
      · have hnone : find? name rest = none :=
          find?_eq_none_of_lt fun entry hmem => String.lt_trans hl (hhead entry hmem)
        simp only [insert, find?, hk, hl, hnone, if_true, if_false, List.map_cons, List.sum_cons,
          Option.map_none, Option.getD_none]
        omega
      · have hih := ih hrest
        simp only [insert, find?, hk, hl, if_false, List.map_cons, List.sum_cons]
        omega

end Table

namespace Monitor

/-! ## Actions -/

/-- What can be done with a monitor while nothing is sampled in the background. -/
inductive Action where
  | configure (settings : MonitorSettings)
  | publish (components : Components)
  | sample (host : Host)
  | record (name : String) (duration : Float) (success : Bool)
  | clear
  | addThreshold (t : Threshold)
  | removeThreshold (metric : String)
  | listen
  | unlisten (listener : Nat)

/-- Does one thing; what is refused changes nothing. -/
def step (m : Monitor) : Action → Monitor
  | .configure settings => m.withSettings settings
  | .publish components => m.publish components
  | .sample host => (m.sample host).2.2
  | .record name duration success => m.record name duration success
  | .clear => m.clearHistory
  | .addThreshold t => m.withThreshold t
  | .removeThreshold metric => (m.withoutThreshold metric).getD m
  | .listen => m.listen.2
  | .unlisten listener => (m.unlisten listener).getD m

/-- Does one thing after the other. -/
def run (m : Monitor) (actions : List Action) : Monitor := actions.foldl step m

/-- Whether an action has to do with thresholds, listeners or the figures to come only. -/
def Action.isAside : Action → Bool
  | .publish _ | .addThreshold _ | .removeThreshold _ | .listen | .unlisten _ => true
  | _ => false

theorem step_aside (m : Monitor) {action : Action} (h : action.isAside = true) :
    ∃ thresholds listeners nextListener components, m.step action =
      { m with
        thresholds := thresholds
        listeners := listeners
        nextListener := nextListener
        components := components } := by
  cases action with
  | publish _ | addThreshold _ | listen => exact ⟨_, _, _, _, rfl⟩
  | removeThreshold metric =>
    simp only [step, withoutThreshold]
    split <;> exact ⟨_, _, _, _, rfl⟩
  | unlisten listener =>
    simp only [step, unlisten]
    split <;> exact ⟨_, _, _, _, rfl⟩
  | configure _ | sample _ | record _ _ _ | clear => cases h

/-! ## Journals -/

/-- What was produced and recorded since the history was last cleared. -/
structure Journal where
  samples : List Sample
  snapshots : List Snapshot
  /-- The operations that were recorded, with their success. -/
  records : List (String × Bool)
  /-- Settings that were replaced since then. -/
  replaced : List MonitorSettings

/-- The snapshot that sampling takes. -/
def taken (m : Monitor) (host : Host) : Snapshot :=
  Snapshot.capture m.components (if m.settings.samplesHost then host else Host.unknown)

namespace Journal

/-- Nothing was produced yet. -/
def blank : Journal := ⟨[], [], [], []⟩

/-- Writes down what an action on a monitor produces. -/
def note (j : Journal) (m : Monitor) : Action → Journal
  | .configure _ => { j with replaced := m.settings :: j.replaced }
  | .sample host =>
    { j with
      samples := j.samples ++ (m.taken host).samples
      snapshots := j.snapshots ++ [m.taken host] }
  | .record name duration success =>
    { j with
      samples := j.samples ++ [Sample.ofDuration name duration]
      records := j.records ++ [(name, success)] }
  | .clear => blank
  | _ => j

theorem note_aside (j : Journal) (m : Monitor) {action : Action} (h : action.isAside = true) :
    j.note m action = j := by
  cases action with
  | publish _ | addThreshold _ | removeThreshold _ | listen | unlisten _ => rfl
  | configure _ | sample _ | record _ _ _ | clear => cases h

/-- Writes down a run. -/
def follow (j : Journal) (m : Monitor) : List Action → Journal
  | [] => j
  | action :: rest => (j.note m action).follow (m.step action) rest

end Journal

/-! ## Keeping the last entries -/

section Kept

variable {α : Type} {n cap : Nat} {kept produced entries : List α}

theorem length_keepLast (cap : Nat) (entries : List α) :
    (keepLast cap entries).length = min cap entries.length := by
  rw [keepLast, List.length_drop]
  omega

theorem keepLast_of_length_le (h : entries.length ≤ cap) : keepLast cap entries = entries := by
  rw [keepLast, Nat.sub_eq_zero_of_le h, List.drop_zero]

theorem keepLast_keepLast (h : n ≤ cap) (entries : List α) :
    keepLast n (keepLast cap entries) = keepLast n entries := by
  rw [keepLast, length_keepLast, keepLast, keepLast, List.drop_drop]
  congr 1
  omega

/-- Of more entries, the last ones can be told from the last ones before. -/
theorem keepLast_append (n : Nat) (kept entries : List α) :
    keepLast n (kept ++ entries) = keepLast n (keepLast n kept ++ entries) := by
  simp only [keepLast, List.length_append, List.length_drop, List.drop_append, List.drop_drop]
  congr 2 <;> omega

/-- What is kept of produced entries under a limit, after earlier limits. -/
structure Kept (cap : Nat) (earlier : List Nat) (kept produced : List α) : Prop where
  suffix : kept <:+ produced
  length_le : kept.length ≤ cap
  /-- What no limit excludes is there. -/
  last : ∀ n ≤ cap, (∀ limit ∈ earlier, n ≤ limit) → keepLast n kept = keepLast n produced

namespace Kept

variable {earlier : List Nat}

theorem nil (cap : Nat) (earlier : List Nat) : Kept cap earlier ([] : List α) [] :=
  ⟨List.suffix_rfl, Nat.zero_le cap, fun _ _ _ => rfl⟩

theorem append (h : Kept cap earlier kept produced) (entries : List α) :
    Kept cap earlier (keepLast cap (kept ++ entries)) (produced ++ entries) where
  suffix := (keepLast_suffix cap _).trans (List.suffix_append_self_iff.2 h.suffix)
  length_le := length_keepLast_le cap _
  last n hn hearlier := by
    rw [keepLast_keepLast hn, keepLast_append, h.last n hn hearlier, ← keepLast_append]

theorem limit (h : Kept cap earlier kept produced) (next : Nat) :
    Kept next (cap :: earlier) (keepLast next kept) produced where
  suffix := (keepLast_suffix next kept).trans h.suffix
  length_le := length_keepLast_le next kept
  last n hn hearlier := by
    obtain ⟨hcap, hrest⟩ := List.forall_mem_cons.1 hearlier
    rw [keepLast_keepLast hn, h.last n hcap hrest]

/-- Under a limit that was never lower, the last entries up to it are kept. -/
theorem eq_keepLast (h : Kept cap earlier kept produced) (hearlier : ∀ limit ∈ earlier, cap ≤ limit) :
    kept = keepLast cap produced := by
  rw [← h.last cap (Nat.le_refl cap) hearlier, keepLast_of_length_le h.length_le]

/-- As long as a limit is not changed, as much is kept as it allows. -/
theorem length_eq {limit : MonitorSettings → Nat} {replaced : List MonitorSettings}
    (h : Kept cap (replaced.map limit) kept produced) (hsame : ∀ s ∈ replaced, limit s = cap) :
    kept.length = min cap produced.length := by
  have hlimits : ∀ c ∈ replaced.map limit, cap ≤ c :=
    List.forall_mem_map.2 fun s hs => Nat.le_of_eq (hsame s hs).symm
  rw [h.eq_keepLast hlimits, length_keepLast]

end Kept

end Kept

/-! ## Statistics -/

/-- A figure counts the runs of an operation whose success is as said. -/
structure Counts (figure : Operation → Nat) (counted : Bool → Bool) : Prop where
  none : figure Operation.none = 0
  record : ∀ o duration success,
    figure (o.record duration success) = figure o + (counted success).toNat

theorem counts_count : Counts Operation.count (fun _ => true) := ⟨rfl, fun _ _ _ => rfl⟩

theorem counts_successes : Counts Operation.successes id := ⟨rfl, fun _ _ _ => rfl⟩

theorem counts_failures : Counts Operation.failures not := ⟨rfl, fun _ _ _ => rfl⟩

/-- The sum of a figure over all operations. -/
def sumOf (figure : Operation → Nat) (operations : Table Operation) : Nat :=
  (operations.map (fun entry => figure entry.2)).sum

/-- The statistics of an operation. -/
def statistics (operations : Table Operation) (name : String) : Operation :=
  (Table.find? name operations).getD Operation.none

section Counts

variable {figure : Operation → Nat} {counted : Bool → Bool} {operations : Table Operation}

theorem Counts.sumOf_recordIn (h : Counts figure counted) (hordered : Table.Ordered operations)
    (name : String) (duration : Float) (success : Bool) :
    sumOf figure (recordIn name duration success operations) =
      sumOf figure operations + (counted success).toNat := by
  have hsum := Table.sum_insert name ((statistics operations name).record duration success) figure
    hordered
  have hold : ((Table.find? name operations).map figure).getD 0 =
      figure (statistics operations name) := by
    unfold statistics
    cases Table.find? name operations with
    | none => exact h.none.symm
    | some o => rfl
  rw [h.record, hold] at hsum
  unfold sumOf recordIn
  unfold statistics at hsum
  omega

theorem Counts.statistics_recordIn (h : Counts figure counted) (name other : String)
    (duration : Float) (success : Bool) :
    figure (statistics (recordIn name duration success operations) other) =
      figure (statistics operations other) + (other = name && counted success).toNat := by
  unfold statistics recordIn
  rw [Table.find?_insert]
  by_cases heq : other = name
  · simp [heq, h.record]
  · simp [heq]

end Counts

/-- Statistics of operations and totals, beside the records of a journal. -/
structure Accounts (operations : Table Operation) (totals : Operation)
    (records : List (String × Bool)) : Prop where
  ordered : Table.Ordered operations
  sum : ∀ {figure counted}, Counts figure counted → sumOf figure operations = figure totals
  each : ∀ {figure counted}, Counts figure counted → ∀ name,
    figure (statistics operations name) =
      records.countP (fun record => record.1 = name && counted record.2)

namespace Accounts

variable {operations : Table Operation} {totals : Operation} {records : List (String × Bool)}

theorem nil : Accounts [] Operation.none [] where
  ordered := List.Pairwise.nil
  sum h := h.none.symm
  each h _ := h.none

theorem record (h : Accounts operations totals records) (name : String) (duration : Float)
    (success : Bool) : Accounts (recordIn name duration success operations)
      (totals.record duration success) (records ++ [(name, success)]) where
  ordered := Table.ordered_insert _ _ h.ordered
  sum hcounts := by
    rw [hcounts.sumOf_recordIn h.ordered, hcounts.record, h.sum hcounts]
  each {_ counted} hcounts other := by
    rw [hcounts.statistics_recordIn, List.countP_append, h.each hcounts]
    cases hcounted : counted success <;> by_cases heq : other = name <;>
      simp [hcounted, heq, Ne.symm]

end Accounts

/-! ## Runs -/

/-- A monitor holds what its journal says. -/
structure Faithful (m : Monitor) (j : Journal) : Prop where
  samples : Kept m.settings.maxMetrics (j.replaced.map (·.maxMetrics)) m.samples j.samples
  snapshots : Kept m.settings.maxSnapshots (j.replaced.map (·.maxSnapshots)) m.snapshots j.snapshots
  accounts : Accounts m.operations m.totals j.records

namespace Faithful

variable {m : Monitor} {j : Journal}

/-- **Each action keeps a monitor to its journal.** -/
theorem step (h : Faithful m j) (action : Action) : Faithful (m.step action) (j.note m action) := by
  cases haside : action.isAside with
  | true =>
    obtain ⟨_, _, _, _, heq⟩ := m.step_aside haside
    rw [j.note_aside m haside, heq]
    exact ⟨h.samples, h.snapshots, h.accounts⟩
  | false =>
    cases action with
    | configure settings => exact ⟨h.samples.limit _, h.snapshots.limit _, h.accounts⟩
    | sample host => exact ⟨h.samples.append _, h.snapshots.append _, h.accounts⟩
    | record name duration success =>
      exact ⟨h.samples.append _, h.snapshots, h.accounts.record name duration success⟩
    | clear => exact ⟨.nil _ _, .nil _ _, .nil⟩
    | publish _ | addThreshold _ | removeThreshold _ | listen | unlisten _ => cases haside

theorem run (h : Faithful m j) (actions : List Action) :
    Faithful (m.run actions) (j.follow m actions) := by
  induction actions generalizing m j with
  | nil => exact h
  | cons action rest ih => exact ih (h.step action)

end Faithful

theorem faithful_run (settings : MonitorSettings) (actions : List Action) :
    Faithful ((start settings).run actions) (Journal.blank.follow (start settings) actions) :=
  Faithful.run ⟨.nil _ _, .nil _ _, .nil⟩ actions

/-- **What is kept is the end of what was produced**, within the limit of the settings, and all that
    it allows if it was not changed; the totals are the sums over all operations, and both tell what
    was recorded. -/
theorem history_run (settings : MonitorSettings) (actions : List Action) :
    let m := (start settings).run actions
    let j := Journal.blank.follow (start settings) actions
    (m.samples <:+ j.samples ∧ m.samples.length ≤ m.settings.maxMetrics ∧
      ((∀ s ∈ j.replaced, s.maxMetrics = m.settings.maxMetrics) →
        m.samples.length = min m.settings.maxMetrics j.samples.length)) ∧
    (m.snapshots <:+ j.snapshots ∧ m.snapshots.length ≤ m.settings.maxSnapshots ∧
      ((∀ s ∈ j.replaced, s.maxSnapshots = m.settings.maxSnapshots) →
        m.snapshots.length = min m.settings.maxSnapshots j.snapshots.length)) ∧
    (m.totals.count = sumOf Operation.count m.operations ∧
      m.totals.successes = sumOf Operation.successes m.operations ∧
      m.totals.failures = sumOf Operation.failures m.operations) ∧
    ∀ name,
      (statistics m.operations name).count = j.records.countP (fun r => r.1 = name) ∧
      (statistics m.operations name).successes = j.records.countP (fun r => r.1 = name && r.2) ∧
      (statistics m.operations name).failures = j.records.countP (fun r => r.1 = name && !r.2) := by
  dsimp only
  obtain ⟨hsamples, hsnapshots, haccounts⟩ := faithful_run settings actions
  refine ⟨⟨hsamples.suffix, hsamples.length_le, hsamples.length_eq⟩,
    ⟨hsnapshots.suffix, hsnapshots.length_le, hsnapshots.length_eq⟩,
    ⟨(haccounts.sum counts_count).symm, (haccounts.sum counts_successes).symm,
      (haccounts.sum counts_failures).symm⟩, fun name => ⟨?_, ?_, ?_⟩⟩
  · simpa using haccounts.each counts_count name
  · exact haccounts.each counts_successes name
  · exact haccounts.each counts_failures name

/-- Two samples at most, of one snapshot with three of them and one operation. The first settings are
    replaced before the history is cleared, the others by settings with the same limits. -/
theorem history_run_full :
    let narrow : MonitorSettings := { (default : MonitorSettings) with maxMetrics := 2 }
    let quiet : MonitorSettings := { narrow with samplesHost := false }
    let actions : List Action := [.record "open" 1.0 true, .configure narrow, .clear,
      .publish [("cache", [("hits", 1.0), ("misses", 2.0), ("size", 3.0)])], .sample Host.unknown,
      .configure quiet, .record "close" 4.0 false]
    let m := (start default).run actions
    let j := Journal.blank.follow (start default) actions
    (∀ s ∈ j.replaced, s.maxMetrics = m.settings.maxMetrics) ∧
      m.samples.length = min m.settings.maxMetrics j.samples.length ∧ j.samples.length = 4 := by
  intro narrow quiet actions m j
  have hsame : ∀ s ∈ j.replaced, s.maxMetrics = m.settings.maxMetrics := by decide +kernel
  exact ⟨hsame, (history_run default actions).1.2.2 hsame, by decide +kernel⟩

end Monitor

end Theming
