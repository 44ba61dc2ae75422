import Theming.Proofs.Token.Leaves
import Theming.Token.Json

set_option autoImplicit false

/-! # Laying a theme over a base

A theme is laid over a base entry by entry and level by level. The entries of the merged set are
found from those of the two sets under the same name (`find?_merge`), and so is what it holds at a
list of keys (`at?_merge`): what the theme holds there, laid over what the base holds; nothing, if
the keys run into a leaf of the theme on their way; and otherwise what the base holds.

All of this is about sets whose tables are in order (`TokenSet.InOrder`). Every set that is read from
JSON is one (`inOrder_ofJson?`), and merging keeps it so. The main result is `merge_pathwise`. -/

namespace Theming

/-! ## Sets in order -/

namespace TokenSet

/-- The tables of a set, at every level, list their names in order. -/
def InOrder (set : TokenSet) : Prop := (Value.map set).EachMap Table.Ordered

instance (entries : Table Value) : Decidable (Table.Ordered entries) :=
  inferInstanceAs (Decidable (entries.Pairwise (fun a b => a.1 < b.1)))

instance : DecidablePred InOrder := fun set => Value.decEachMap Table.Ordered (.map set)

variable {set base theme : TokenSet} {key : String} {v : Value}

theorem inOrder_nil : InOrder [] := ⟨List.Pairwise.nil, trivial⟩

theorem Keyed.inOrder (h : Keyed set) : InOrder set :=
  Value.EachMap.imp (fun _ hkeyed => hkeyed.1) (.map set) h

theorem InOrder.ordered (h : InOrder set) : Table.Ordered set := h.1

theorem InOrder.eachMap (h : InOrder set) (hfind : Table.find? key set = some v) :
    v.EachMap Table.Ordered :=
  eachMap_iff.1 h.2 (key, v) (Table.mem_of_find?_eq_some hfind)

theorem InOrder.insert (h : InOrder set) (hv : v.EachMap Table.Ordered) (key : String) :
    InOrder (Table.insert key v set) :=
  ⟨Table.ordered_insert key v h.ordered, eachMap_insert h.2 hv key⟩

theorem below_of_not_map (hv : v.isMap = false) : below (some v) = [] := by
  cases v with
  | map entries => cases hv
  | bool b => rfl
  | int n => rfl
  | float x => rfl
  | str s => rfl

/-- What holds of every map in a set holds below every key, as far as there is something below. -/
theorem eachMap_below {P : Table Value → Prop} (h : EachMap P set) (key : String) :
    (P (below (Table.find? key set)) ∨ below (Table.find? key set) = []) ∧
      EachMap P (below (Table.find? key set)) := by
  cases hfind : Table.find? key set with
  | none => exact ⟨Or.inr rfl, trivial⟩
  | some w =>
    have hw : w.EachMap P := eachMap_iff.1 h (key, w) (Table.mem_of_find?_eq_some hfind)
    cases w using Value.mapCases with
    | map entries => exact ⟨Or.inl hw.1, hw.2⟩
    | other w hmap =>
      rw [below_of_not_map hmap]
      exact ⟨Or.inr rfl, trivial⟩

/-- The entries below something are in order. -/
theorem InOrder.below (h : InOrder set) (key : String) : InOrder (below (Table.find? key set)) := by
  obtain ⟨hhere, hbelow⟩ := eachMap_below h.2 key
  refine ⟨?_, hbelow⟩
  rcases hhere with hordered | hnil
  · exact hordered
  · rw [hnil]
    exact List.Pairwise.nil

mutual

theorem eachMap_ofJson? : ∀ (json : Json) {v : Value},
    Value.ofJson? json = some v → v.EachMap Table.Ordered
  | .bool b, _, h => by
    rw [← Option.some.inj h]
    trivial
  | .string s, _, h => by
    rw [← Option.some.inj h]
    trivial
  | .number n, _, h => by
    rw [Value.ofJson?, Value.ofNumeral?] at h
    obtain ⟨amount, -, rfl⟩ := Option.map_eq_some_iff.1 h
    cases amount with
    | whole i => exact eachMap_of_not_map (by dsimp only; split <;> rfl)
    | real x => trivial
  | .object fields, _, h => by
    obtain ⟨entries, hentries, rfl⟩ := Option.map_eq_some_iff.1 h
    exact inOrder_ofFields? fields inOrder_nil hentries
  | .null, _, h => by cases h
  | .array _, _, h => by cases h
termination_by structural json => json

theorem inOrder_ofFields? : ∀ (fields : List (String × Json)) {read set : TokenSet},
    InOrder read → Value.ofFields? read fields = some set → InOrder set
  | [], _, _, hread, h => by
    rw [← Option.some.inj h]
    exact hread
  | (name, json) :: rest, _, _, hread, h => by
    rw [Value.ofFields?] at h
    split at h
    · next v hv => exact inOrder_ofFields? rest (hread.insert (eachMap_ofJson? json hv) name) h
    · cases h
termination_by structural fields => fields

end

/-- **Sets that are read from JSON are in order.** -/
theorem inOrder_ofJson? {json : Json} (h : ofJson? json = some set) : InOrder set := by
  cases json with
  | object fields => exact inOrder_ofFields? fields inOrder_nil h
  | null => cases h
  | bool b => cases h
  | number n => cases h
  | string s => cases h
  | array items => cases h

/-! ## Laying one value over another -/

theorem mergeValue_of_not_map (hv : v.isMap = false) (under : Option Value) :
    mergeValue under v = v := by
  cases v with
  | map above => cases hv
  | bool b => rfl
  | int n => rfl
  | float x => rfl
  | str s => rfl

theorem mergeValue_of_no_map {under : Option Value} (h : ∀ below, under ≠ some (.map below))
    (v : Value) : mergeValue under v = v := by
  cases v using Value.mapCases with
  | map above =>
    rw [mergeValue]
    exact h
  | other v hv => exact mergeValue_of_not_map hv under

/-- **The entries of a merged set**: an entry of the theme is laid over that of the base. -/
theorem find?_merge (h : Table.Ordered theme) (base : TokenSet) (key : String) :
    Table.find? key (merge base theme) =
      ((Table.find? key theme).map (mergeValue (Table.find? key base))).or
        (Table.find? key base) := by
  unfold merge
  induction theme generalizing base with
  | nil => rfl
  | cons e rest ih =>
    obtain ⟨name, value⟩ := e
    obtain ⟨hbefore, hrest⟩ := List.pairwise_cons.1 h
    rw [mergeOnto, ih hrest, Table.find?_insert, Table.find?]
    by_cases hkey : key = name
    · -- No later entry has the same name, so the value stays as it was laid.
      subst hkey
      rw [Table.find?_eq_none_of_lt hbefore, if_pos rfl, if_pos rfl]
      rfl
    · rw [if_neg hkey, if_neg hkey]

mutual

theorem eachMap_mergeValue : ∀ (v : Value) {under : Option Value}, v.EachMap Table.Ordered →
    (∀ w ∈ under, w.EachMap Table.Ordered) → (mergeValue under v).EachMap Table.Ordered
  | .map _, none, hv, _ => hv
  | .map above, some (.map _), hv, hunder => inOrder_mergeOnto above hv.2 (hunder _ rfl)
  | .map _, some (.bool _), hv, _ => hv
  | .map _, some (.int _), hv, _ => hv
  | .map _, some (.float _), hv, _ => hv
  | .map _, some (.str _), hv, _ => hv
  | .bool _, _, _, _ => trivial
  | .int _, _, _, _ => trivial
  | .float _, _, _, _ => trivial
  | .str _, _, _, _ => trivial
termination_by structural v => v

theorem inOrder_mergeOnto : ∀ (above : List (String × Value)) {base : TokenSet},
    EachMap Table.Ordered above → InOrder base → InOrder (mergeOnto base above)
  | [], _, _, hbase => hbase
  | (key, v) :: rest, base, habove, hbase => by
    have hlaid : (mergeValue (Table.find? key base) v).EachMap Table.Ordered :=
      eachMap_mergeValue v habove.1 (fun w hw => hbase.eachMap hw)
    exact inOrder_mergeOnto rest habove.2 (hbase.insert hlaid key)
termination_by structural above => above

end

/-- **Merging keeps sets in order.** -/
theorem InOrder.merge (hbase : InOrder base) (htheme : InOrder theme) :
    InOrder (merge base theme) :=
  inOrder_mergeOnto theme htheme.2 hbase

/-- What is laid over nothing stays as it is. -/
theorem nil_merge (h : InOrder theme) : merge [] theme = theme := by
  apply Table.eq_of_find?_eq (inOrder_nil.merge h).ordered h.ordered
  intro key
  rw [find?_merge h.ordered]
  cases Table.find? key theme with
  | none => rfl
  | some v => exact congrArg some (mergeValue_of_no_map (by simp [Table.find?]) v)

/-- A map becomes what it is when it is laid over the entries below, if there are any. -/
theorem mergeValue_map {above : TokenSet} (h : InOrder above) (under : Option Value) :
    mergeValue under (.map above) = .map (merge (below under) above) := by
  cases under with
  | none => exact congrArg Value.map (nil_merge h).symm
  | some w =>
    cases w using Value.mapCases with
    | map entries => rfl
    | other w hw =>
      rw [below_of_not_map hw, nil_merge h]
      apply mergeValue_of_no_map
      rintro entries ⟨⟩
      cases hw

/-! ## Following keys through a merged set -/

end TokenSet

/-- Whether keys lead to a leaf before the last of them is followed. -/
def Value.stopsEarly : List String → Value → Bool
  | [], _ => false
  | key :: keys, .map entries => ((Table.find? key entries).map (stopsEarly keys)).getD false
  | _ :: _, _ => true

namespace Value

theorem stopsEarly_cons_of_not_map {v : Value} (hv : v.isMap = false) (key : String)
    (keys : List String) : v.stopsEarly (key :: keys) = true := by
  cases v with
  | map entries => cases hv
  | bool b => rfl
  | int n => rfl
  | float x => rfl
  | str s => rfl

/-- Keys stop early exactly if a proper prefix of them leads to a leaf. -/
theorem stopsEarly_iff {keys : List String} {v : Value} :
    v.stopsEarly keys = true ↔
      ∃ front w, front <+: keys ∧ front ≠ keys ∧ v.at? front = some w ∧ w.isMap = false := by
  induction keys generalizing v with
  | nil =>
    simp only [stopsEarly, Bool.false_eq_true, List.prefix_nil, false_iff]
    rintro ⟨front, w, rfl, hne, -⟩
    exact hne rfl
  | cons key keys ih =>
    cases v using mapCases with
    | other v hv =>
      rw [stopsEarly_cons_of_not_map hv]
      exact iff_of_true rfl ⟨[], v, List.nil_prefix, by simp, at?_nil v, hv⟩
    | map entries =>
      rw [stopsEarly]
      constructor
      · intro h
        cases hfind : Table.find? key entries with
        | none =>
          rw [hfind] at h
          cases h
        | some x =>
          rw [hfind] at h
          obtain ⟨front, w, hprefix, hne, hat, hw⟩ := ih.1 h
          refine ⟨key :: front, w, List.cons_prefix_cons.2 ⟨rfl, hprefix⟩, by simpa using hne,
            ?_, hw⟩
          rw [at?_cons, hfind]
          exact hat
      · rintro ⟨front, w, hprefix, hne, hat, hw⟩
        cases front with
        | nil =>
          -- No key followed yet, and the value is still a map.
          rw [at?_nil] at hat
          rw [← Option.some.inj hat] at hw
          cases hw
        | cons first front =>
          obtain ⟨rfl, hrest⟩ := List.cons_prefix_cons.1 hprefix
          rw [at?_cons, Option.bind_eq_some_iff] at hat
          obtain ⟨x, hfind, hat⟩ := hat
          rw [hfind]
          exact ih.2 ⟨front, w, hrest, by simpa using hne, hat, hw⟩

end Value

namespace TokenSet

variable {set base theme : TokenSet} {key : String} {v : Value}

theorem at?_cons (key : String) (keys : List String) (set : TokenSet) :
    at? (key :: keys) set = (Table.find? key set).bind (Value.at? keys) := rfl

/-- Keys lead to the same among the entries below something as from the thing itself. -/
theorem at?_below (key : String) (keys : List String) (under : Option Value) :
    at? (key :: keys) (below under) = under.bind (Value.at? (key :: keys)) := by
  cases under with
  | none => rfl
  | some w =>
    cases w using Value.mapCases with
    | map entries => rfl
    | other w hw =>
      rw [below_of_not_map hw]
      exact (Value.at?_eq_none_of_not_map hw key keys).symm

/-- **What keys lead to in a value that was laid over another one.** -/
theorem at?_mergeValue (hv : v.EachMap Table.Ordered) (under : Option Value)
    (keys : List String) :
    (mergeValue under v).at? keys =
      match v.at? keys with
      | some w => some (mergeValue (under.bind (Value.at? keys)) w)
      | none => if v.stopsEarly keys then none else under.bind (Value.at? keys) := by
  induction keys generalizing v under with
  | nil =>
    have hbind : under.bind (Value.at? []) = under := by cases under <;> simp
    rw [Value.at?_nil, Value.at?_nil, hbind]
  | cons key keys ih =>
    cases v using Value.mapCases with
    | other v hmap =>
      rw [mergeValue_of_not_map hmap, Value.at?_eq_none_of_not_map hmap,
        Value.stopsEarly_cons_of_not_map hmap]
      rfl
    | map above =>
      have habove : InOrder above := hv
      rw [mergeValue_map habove, Value.at?_cons, Value.at?_cons, find?_merge habove.ordered,
        Value.stopsEarly, ← at?_below, at?_cons]
      cases hfind : Table.find? key above with
      | none => rfl
      | some x =>
        -- The rest of the keys goes on in the entry of the theme, over that of the base.
        exact ih (habove.eachMap hfind) _

/-- **What keys lead to in a merged set.** -/
theorem at?_merge (h : InOrder theme) (base : TokenSet) (keys : List String) :
    at? keys (merge base theme) =
      match at? keys theme with
      | some w => some (mergeValue (at? keys base) w)
      | none => if (Value.map theme).stopsEarly keys then none else at? keys base := by
  cases keys with
  | nil => rfl
  | cons key keys => exact at?_mergeValue h (some (.map base)) (key :: keys)

/-- Whether a proper prefix of some keys leads to a leaf. -/
def LeafOnWay (keys : List String) (set : TokenSet) : Prop :=
  ∃ front w, front <+: keys ∧ front ≠ keys ∧ at? front set = some w ∧ w.isMap = false

theorem stopsEarly_map_iff {keys : List String} :
    (Value.map set).stopsEarly keys = true ↔ LeafOnWay keys set := by
  rw [Value.stopsEarly_iff]
  refine exists_congr fun front => exists_congr fun w => ?_
  cases front with
  | nil =>
    -- The set itself is no leaf, and there is no entry without keys.
    rw [Value.at?_nil]
    constructor
    · rintro ⟨-, -, heq, hw⟩
      rw [← Option.some.inj heq] at hw
      cases hw
    · rintro ⟨-, -, hat, -⟩
      cases hat
  | cons key front => exact Iff.rfl

/-! ## Laws of merging -/

/-- **Laying the same theme over a second time changes nothing.** -/
theorem merge_merge_self {base theme : TokenSet} (hbase : InOrder base) (htheme : InOrder theme) :
    merge (merge base theme) theme = merge base theme := by
  have hmerged := hbase.merge htheme
  apply Table.eq_of_find?_eq (hmerged.merge htheme).ordered hmerged.ordered
  intro key
  rw [find?_merge htheme.ordered, find?_merge htheme.ordered]
  cases hfind : Table.find? key theme with
  | none => rfl
  | some v =>
    show some (mergeValue (some (mergeValue (Table.find? key base) v)) v) =
      some (mergeValue (Table.find? key base) v)
    cases v using Value.mapCases with
    | map above =>
      have habove : InOrder above := htheme.eachMap hfind
      have hbelow : InOrder (below (Table.find? key base)) := hbase.below key
      have hmem := Table.mem_of_find?_eq_some hfind
      rw [mergeValue_map habove, mergeValue_map habove]
      exact congrArg (fun entries => some (Value.map entries)) (merge_merge_self hbelow habove)
    | other v hv => rw [mergeValue_of_not_map hv, mergeValue_of_not_map hv]
termination_by sizeOf theme
decreasing_by
  have := List.sizeOf_lt_of_mem hmem
  simp only [Prod.mk.sizeOf_spec, Value.map.sizeOf_spec] at this
  omega

theorem merge_self (h : InOrder set) : merge set set = set :=
  calc
    merge set set = merge (merge [] set) set := by rw [nil_merge h]
    _ = merge [] set := merge_merge_self inOrder_nil h
    _ = set := nil_merge h

/-- **A merged set, path by path.** A leaf of the theme stands where it stood; a map of the theme is
    merged with the map below it, if there is one; and where the theme has nothing, there is nothing
    past its leaves and what the base has elsewhere. So a theme that is empty, is laid over nothing,
    over itself or a second time changes nothing. -/
theorem merge_pathwise (hbase : InOrder base) (htheme : InOrder theme) :
    (∀ keys,
      (∀ w, at? keys theme = some w → w.isMap = false → at? keys (merge base theme) = some w) ∧
      (∀ above, at? keys theme = some (.map above) →
        (∀ entries, at? keys base = some (.map entries) →
          at? keys (merge base theme) = some (.map (merge entries above))) ∧
        ((∀ entries, at? keys base ≠ some (.map entries)) →
          at? keys (merge base theme) = some (.map above))) ∧
      (at? keys theme = none →
        (LeafOnWay keys theme → at? keys (merge base theme) = none) ∧
        (¬ LeafOnWay keys theme → at? keys (merge base theme) = at? keys base))) ∧
    merge theme [] = theme ∧ merge [] theme = theme ∧ merge theme theme = theme ∧
    merge (merge base theme) theme = merge base theme := by
  refine ⟨fun keys => ?_, rfl, nil_merge htheme, merge_self htheme,
    merge_merge_self hbase htheme⟩
  rw [at?_merge htheme]
  refine ⟨fun w hat hw => ?_, fun above hat => ⟨fun entries hentries => ?_, fun hno => ?_⟩,
    fun hat => ⟨fun hleaf => ?_, fun hleaf => ?_⟩⟩
  · rw [hat]
    exact congrArg some (mergeValue_of_not_map hw _)
  · rw [hat, hentries]
    rfl
  · rw [hat]
    exact congrArg some (mergeValue_of_no_map hno _)
  · rw [hat]
    exact if_pos (stopsEarly_map_iff.2 hleaf)
  · rw [hat]
    exact if_neg (fun hstops => hleaf (stopsEarly_map_iff.1 hstops))

/-- A leaf over a map, a map over a leaf, a map over a map, and an entry of the base alone. -/
theorem merge_pathwise_conflicts :
    let base : TokenSet := [("a", .map [("x", .int 1)]), ("b", .int 2),
      ("c", .map [("x", .int 3), ("y", .int 4)])]
    let theme : TokenSet := [("a", .int 5), ("b", .map []), ("c", .map [("x", .map [("z", .int 6)])])]
    InOrder base ∧ InOrder theme ∧ at? ["a", "x"] (merge base theme) = none ∧
      at? ["b"] (merge base theme) = some (.map []) ∧
      at? ["c", "x", "z"] (merge base theme) = some (.int 6) ∧
      at? ["c", "y"] (merge base theme) = some (.int 4) ∧
      merge (merge base theme) theme = merge base theme := by
  intro base theme
  have hbase : InOrder base := by decide +kernel
  have htheme : InOrder theme := by decide +kernel
  obtain ⟨hpaths, -, -, -, hagain⟩ := merge_pathwise hbase htheme
  have hpast : LeafOnWay ["a", "x"] theme := ⟨["a"], .int 5, by decide, by decide, rfl, rfl⟩
  have hbeside : ¬ LeafOnWay ["c", "y"] theme := by
    rw [← stopsEarly_map_iff]
    decide
  exact ⟨hbase, htheme, ((hpaths ["a", "x"]).2.2 rfl).1 hpast,
    ((hpaths ["b"]).2.1 [] rfl).2 (by rintro entries ⟨⟩),
    (hpaths ["c", "x", "z"]).1 (.int 6) rfl rfl, ((hpaths ["c", "y"]).2.2 rfl).2 hbeside, hagain⟩

end TokenSet

end Theming
