import Theming.Proofs.Sheet.Settling

set_option autoImplicit false

/-! # Heads without splicing

Where no selector has a `&` in it, flattening only writes selectors behind each other, with a space
or a comma between them. A text that is scanned as one selector with its parentheses closed keeps to
itself then (`IsSelector`), so all heads of the flat form are legible, and nothing about them has to
be asked (`isLegibleSheet_of_unspliced`). -/

namespace Theming.Sheet

open Node
open Token (Flowing Run Scans Shielded kinds depthOver joinText)

/-! ## Texts with a space between them -/

namespace Token

/-- A token ends in the text that it is scanned from. -/
theorem stop_le_of_mem_scanFrom {o : Nat} {x : List Char} {t : Token} (h : t ∈ scanFrom o x) :
    t.stop ≤ o + Text.byteLength x := by
  fun_induction scanFrom o x with
  | case1 => cases h
  | case2 o c more hgap ih =>
    have hrest := ih h
    rwa [Nat.add_assoc] at hrest
  | case3 o c more hgap kind count hnext text stop ih =>
    have hlength : Text.byteLength (c :: more) =
        Text.byteLength text + Text.byteLength (more.drop count) := by
      rw [← Text.byteLength_append, List.cons_append, List.take_append_drop]
    rw [hlength, ← Nat.add_assoc]
    rcases List.mem_cons.1 h with rfl | hrest
    · exact Nat.le_add_right stop _
    · exact ih hrest

/-- Tokens with a gap between them are joined with a space. -/
theorem joinText_gap {ts us : List Token} (hts : ts ≠ []) (hus : us ≠ [])
    (hplain : ∀ t ∈ ts, t.kind ≠ .comment) (hplain' : ∀ u ∈ us, u.kind ≠ .comment)
    (hgap : ∀ t ∈ ts, ∀ u ∈ us, t.stop < u.start) :
    joinText (ts ++ us) = joinText ts ++ ' ' :: joinText us := by
  obtain ⟨front, t, rfl⟩ := (List.eq_nil_or_concat ts).resolve_left hts
  obtain ⟨u, rest, rfl⟩ := List.exists_cons_of_ne_nil hus
  rw [List.concat_eq_append] at hplain hgap ⊢
  have ht : t ∈ front ++ [t] := by simp
  have hu : u ∈ u :: rest := List.mem_cons_self
  have hback : joinText (u :: rest) = u.text ++ joinAfter u.stop false rest := if_neg (hplain' u hu)
  rw [List.append_assoc, List.singleton_append, joinText_append (hplain t ht),
    joinAfter_gap (hplain' u hu) (Or.inr (hgap t ht u hu)), hback]

end Token

/-! ## Selectors that keep to themselves -/

/-- A text that is scanned as one selector, with its parentheses closed, and is written for it. -/
structure IsSelector (s : String) : Prop where
  words : ∀ t ∈ Token.scan s, t.IsFirm ∧ t.kind ≠ .comment
  flowing : Flowing 0 (kinds (Token.scan s))
  commas : Shielded .comma 0 (kinds (Token.scan s))
  closed : depthOver 0 (kinds (Token.scan s)) = 0
  joined : Token.join (Token.scan s) = s
  unmarked : ∃ t rest, Token.scan s = t :: rest ∧ t.kind ≠ .atKeyword

namespace IsSelector

variable {a b s : String}

theorem ne_empty (h : IsSelector s) : s ≠ "" := by
  obtain ⟨t, rest, hscan, -⟩ := h.unmarked
  rintro rfl
  exact absurd ((Token.scanFrom_nil 0).symm.trans hscan) (List.cons_ne_nil t rest).symm

/-- Wherever it stands, it is read as one selector. -/
theorem scans (h : IsSelector s) : Scans s.toList (fun ts => IsSelectors [s] ts ∧
    Token.join ts = s ∧ Shielded .comma 0 (kinds ts) ∧ depthOver 0 (kinds ts) = 0 ∧
    ∀ t ∈ ts, t.IsFirm) := by
  refine (Token.scans_firm h.words).mono ?_
  rintro ts ⟨o, rfl⟩
  show IsSelectors [s] ((Token.scan s).map (Token.shiftedBy o)) ∧ _
  have hkinds := Token.kinds_shiftedBy o (Token.scan s)
  have hjoin : Token.join ((Token.scan s).map (Token.shiftedBy o)) = s := by
    rw [Token.join_shiftedBy, h.joined]
  have hcommas : Shielded .comma 0 (kinds ((Token.scan s).map (Token.shiftedBy o))) := by
    rw [hkinds]
    exact h.commas
  refine ⟨⟨?_, plain_shiftedBy h.words o, ?_, ?_⟩, hjoin, hcommas, ?_, ?_⟩
  · rw [hkinds]
    exact h.flowing
  · rw [selectorsOf_of_shielded hcommas, hjoin, if_neg h.ne_empty]
  · obtain ⟨t, rest, hscan, hkind⟩ := h.unmarked
    exact ⟨t.shiftedBy o, rest.map (Token.shiftedBy o), by rw [hscan]; rfl, hkind⟩
  · exact (congrArg (depthOver 0) hkinds).trans h.closed
  · intro t ht
    obtain ⟨u, hu, rfl⟩ := List.mem_map.1 ht
    exact (h.words u hu).1

/-- Behind another selector and a space, its tokens are scanned further on. -/
theorem scan_below (ha : IsSelector a) (hb : IsSelector b) :
    Token.scan (a ++ " " ++ b) = Token.scan a ++
      (Token.scan b).map (Token.shiftedBy (Text.byteLength a.toList + 1)) := by
  have hsep : Token.Separated (' ' :: b.toList) := Token.separated_cons rfl _
  have hfront := Token.scanFrom_shiftedBy ha.words hsep 0
  have hsame : (Token.scanFrom 0 a.toList).map (Token.shiftedBy 0) = Token.scanFrom 0 a.toList :=
    List.map_id _
  have hback := Token.scanFrom_shiftedBy hb.words Token.separated_nil
    (Text.byteLength a.toList + 1)
  rw [List.append_nil, Token.scanFrom_nil, List.append_nil, Nat.zero_add] at hback
  have htext : (a ++ " " ++ b).toList = a.toList ++ ' ' :: b.toList := by simp
  have hspace : Char.utf8Size ' ' = 1 := rfl
  rw [Token.scan, htext, hfront, hsame, Nat.zero_add, Token.scanFrom_gap rfl, hspace, hback]
  rfl

/-- A selector as a descendant of another one. -/
theorem below (ha : IsSelector a) (hb : IsSelector b) : IsSelector (a ++ " " ++ b) := by
  have hscan := ha.scan_below hb
  have hkinds : kinds (Token.scan (a ++ " " ++ b)) =
      kinds (Token.scan a) ++ kinds (Token.scan b) := by
    rw [hscan, kinds, List.map_append]
    exact congrArg _ (Token.kinds_shiftedBy _ _)
  constructor
  · intro t ht
    rw [hscan] at ht
    rcases List.mem_append.1 ht with hself | hmoved
    · exact ha.words t hself
    · obtain ⟨u, hu, rfl⟩ := List.mem_map.1 hmoved
      exact hb.words u hu
  · rw [hkinds, Token.flowing_append, ha.closed]
    exact ⟨ha.flowing, hb.flowing⟩
  · rw [hkinds, Token.shielded_append, ha.closed]
    exact ⟨ha.commas, hb.commas⟩
  · rw [hkinds, Token.depthOver_append, ha.closed, hb.closed]
  · obtain ⟨t, rest, hfront, -⟩ := ha.unmarked
    obtain ⟨u, more, hback, -⟩ := hb.unmarked
    have hgap : ∀ t ∈ Token.scan a,
        ∀ u ∈ (Token.scan b).map (Token.shiftedBy (Text.byteLength a.toList + 1)),
          t.stop < u.start := by
      intro t ht u hu
      obtain ⟨v, -, rfl⟩ := List.mem_map.1 hu
      have hstop := Token.stop_le_of_mem_scanFrom ht
      show t.stop < v.start + (Text.byteLength a.toList + 1)
      omega
    have hself : joinText (Token.scan a) = a.toList := by rw [← toList_join, ha.joined]
    have hother : joinText (Token.scan b) = b.toList := by rw [← toList_join, hb.joined]
    rw [hscan, Token.join, Token.joinText_gap (by simp [hfront]) (by simp [hback])
      (fun t ht => (ha.words t ht).2) (plain_shiftedBy hb.words _) hgap,
      Token.joinText_shiftedBy, hself, hother]
    apply String.toList_injective
    simp
  · obtain ⟨t, rest, hfront, hkind⟩ := ha.unmarked
    exact ⟨t, _, by rw [hscan, hfront]; rfl, hkind⟩

end IsSelector

/-- Selectors with commas between them are read as these selectors. -/
theorem scans_selectorList {selectors : List String} (hne : selectors ≠ [])
    (h : ∀ s ∈ selectors, IsSelector s) :
    Scans (selectorList ", " selectors) (fun ts => IsSelectors selectors ts ∧ ∀ t ∈ ts, t.IsFirm) := by
  induction selectors with
  | nil => exact absurd rfl hne
  | cons s rest ih =>
    obtain ⟨hself, hrest⟩ := List.forall_mem_cons.1 h
    by_cases hlast : rest = []
    · subst hlast
      exact hself.scans.mono fun ts hts => ⟨hts.1, hts.2.2.2.2⟩
    · have hcons : selectorList ", " (s :: rest) =
          s.toList ++ ',' :: ([' '] ++ selectorList ", " rest) :=
        Text.joinWith_cons (by simpa using hlast)
      rw [hcons]
      refine (hself.scans.append (((ih hlast hrest).after_gaps isGap_space).after_single rfl rfl)
        (Token.separated_cons rfl _)).mono ?_
      rintro ts ⟨us, ws, rfl, ⟨hus, hjoin, hcommas, hclosed, hfirm⟩, x, vs, rfl, hx, hvs, hfirm'⟩
      have hcomma : x.IsFirm := fun hword => by
        rw [hx] at hword
        cases hword
      exact ⟨hus.cons hjoin hself.ne_empty hcommas hclosed hx hvs,
        List.forall_mem_append.2 ⟨hfirm, List.forall_mem_cons.2 ⟨hcomma, hfirm'⟩⟩⟩

/-- **Selectors that keep to themselves make a legible head.** -/
theorem legibleHead_of_selectors {selectors : List String} (hne : selectors ≠ [])
    (h : ∀ s ∈ selectors, IsSelector s) : LegibleHead selectors := by
  obtain ⟨hreads, hfirm⟩ := (scans_selectorList hne h).whole 0
  obtain ⟨t, rest, hscan, hkind⟩ := hreads.unmarked
  refine ⟨?_, fun u hu => ⟨hfirm u hu, hreads.plain u hu⟩, hreads.flowing, ?_⟩
  · intro hempty
    rw [hempty, Token.scanFrom_nil] at hscan
    cases hscan
  · have hread := hreads.read
    rw [hscan] at hread ⊢
    rw [headText, if_neg hkind, hread]

/-! ## Selectors that are read -/

/-- A selector that is written as it is: it has no `&`, starts with no at sign, and closes its
    parentheses. -/
structure IsUnspliced (s : String) : Prop where
  ampersand : '&' ∉ s.toList
  unmarked : Text.headIs '@' s = false
  closed : ClosesParens s

theorem IsPart.isSelector {s : String} {ts : List Token} (h : IsPart s ts) (hs : IsUnspliced s) :
    IsSelector s := by
  obtain rfl := h.text
  have hscan : Token.scan (Token.join ts) = Token.scanFrom 0 (joinText ts) := by
    rw [Token.scan, toList_join]
  obtain ⟨hreads, hjoin, hcommas, hdepth⟩ :=
    (scans_selector h.run h.flowing h.commas h.nonempty hs.unmarked).whole 0
  obtain ⟨hshapes, -⟩ := (Token.rescans_joinText h.run).whole 0
  rw [← hscan] at hreads hjoin hcommas hdepth hshapes
  exact ⟨fun t ht => ⟨firm_of_shapes hshapes h.run t ht, hreads.plain t ht⟩, hreads.flowing,
    hcommas, hdepth.trans ((closesParens_join_iff h.run).1 hs.closed), hjoin, hreads.unmarked⟩

/-! ## Selectors that are resolved -/

/-- The selectors around a node, if it is in a rule, keep to themselves. -/
def KeepsApart : Option (List String) → Prop
  | none => True
  | some selectors => selectors ≠ [] ∧ ∀ s ∈ selectors, IsSelector s

theorem keepsApart_resolveSelectors {scope : Option (List String)} {own : List String}
    (hscope : KeepsApart scope) (hne : own ≠ [])
    (hown : ∀ s ∈ own, IsSelector s ∧ '&' ∉ s.toList) :
    KeepsApart (some (resolveSelectors scope own)) := by
  cases scope with
  | none => exact ⟨hne, fun s hs => (hown s hs).1⟩
  | some outer =>
    obtain ⟨hne', houter⟩ := hscope
    constructor
    · obtain ⟨o, rest, rfl⟩ := List.exists_cons_of_ne_nil hne'
      obtain ⟨s, more, rfl⟩ := List.exists_cons_of_ne_nil hne
      exact List.cons_ne_nil _ _
    · intro s hs
      obtain ⟨o, ho, hbelow⟩ := List.mem_flatMap.1 hs
      obtain ⟨inner, hinner, rfl⟩ := List.mem_map.1 hbelow
      obtain ⟨hself, hsplice⟩ := hown inner hinner
      rw [selectorBelow, if_neg (by simpa using hsplice)]
      exact (houter o ho).below hself

/-! ## Heads of the flat form -/

theorem legibleHeads_ownItem? (n : Node) : LegibleHeads (n.ownItem? false).toList := by
  obtain ⟨kind, properties, children⟩ := n
  cases kind with
  | root | rule | selector | condition | comment => exact fun _ hs => by cases hs
  | declaration =>
    unfold ownItem?
    dsimp only [kind_mk]
    split <;> exact fun _ hs => by cases hs

theorem legibleHeads_entries (nodes : List Node) : LegibleHeads (entries false nodes) := by
  induction nodes with
  | nil => exact fun _ hs => by cases hs
  | cons n rest ih =>
    have hcons : entries false (n :: rest) = (n.ownItem? false).toList ++ entries false rest := by
      rw [entries, List.filterMap_cons]
      cases n.ownItem? false <;> rfl
    rw [hcons, legibleHeads_append]
    exact ⟨legibleHeads_ownItem? n, ih⟩

theorem legibleHeads_entry {n : Node} (h : n.isEntry = true) (scope : Option (List String)) :
    LegibleHeads (n.items false scope) := by
  obtain ⟨kind, properties, children⟩ := n
  have hself := legibleHeads_ownItem? (.mk kind properties [])
  cases kind with
  | root | rule | selector | condition => cases h
  | declaration | comment =>
    cases scope with
    | none => exact hself
    | some outer => exact fun _ hs => by cases hs

/-- A block of entries below selectors that keep to themselves. -/
theorem KeepsApart.block {selectors : List String} (h : KeepsApart (some selectors))
    (nodes : List Node) : LegibleHeads [.block selectors (entries false nodes)] := by
  intro head hhead
  rw [Item.headsAll, Item.heads, Item.headsAll, List.append_nil] at hhead
  rcases List.mem_cons.1 hhead with rfl | hinside
  · exact legibleHead_of_selectors h.1 h.2
  · exact legibleHeads_entries nodes head hinside

theorem KeepsApart.ruleBlock {selectors : List String} (h : KeepsApart (some selectors))
    (nodes : List Node) (leaf : Bool) :
    LegibleHeads (ruleBlock selectors (entries false nodes) leaf) := by
  unfold Sheet.ruleBlock
  split
  · exact fun _ hs => by cases hs
  · exact h.block nodes

theorem KeepsApart.looseItems {scope : Option (List String)} (h : KeepsApart scope)
    (nodes : List Node) : LegibleHeads (looseItems scope (entries false nodes)) := by
  unfold Sheet.looseItems
  split
  · exact fun _ hs => by cases hs
  · split
    · exact legibleHeads_entries nodes
    · exact h.block nodes

/-- **The heads of the flat form are legible** if no selector is spliced. -/
theorem Legible.legibleHeads {depth : Nat} {nodes : List Node} (h : Legible depth nodes)
    (hunspliced : ∀ n ∈ preorderAll nodes, n.kind = .selector → IsUnspliced (n.prop textKey))
    {scope : Option (List String)} (hscope : KeepsApart scope) :
    LegibleHeads (itemsOf false scope nodes) := by
  induction h generalizing scope with
  | nil => exact fun _ hs => by cases hs
  | comment _ _ ih | entry _ _ _ ih =>
    obtain ⟨-, -, hrest⟩ := forall_mem_preorderAll_cons.1 hunspliced
    rw [itemsOf, legibleHeads_append]
    exact ⟨legibleHeads_entry rfl scope, ih hrest hscope⟩
  | last =>
    rw [itemsOf, itemsOf, List.append_nil]
    exact legibleHeads_entry rfl scope
  | @rule depth body nodes selectors _ hne hparts hbody _ ihbody ih =>
    obtain ⟨-, hinside, hrest⟩ := forall_mem_preorderAll_cons.1 hunspliced
    rw [Node.rule, Node.children, preorderAll_append] at hinside
    obtain ⟨hown, hinner⟩ := List.forall_mem_append.1 hinside
    obtain ⟨leaf, hrule⟩ := items_rule_eq scope selectors hbody.kind_ne_selector
    have hselectors : ∀ s ∈ selectors, IsSelector s ∧ '&' ∉ s.toList := by
      intro s hs
      obtain ⟨ts, hpart⟩ := hparts s hs
      have hself : IsUnspliced s := forall_mem_preorderAll_selectors.1 hown s hs rfl
      exact ⟨hpart.isSelector hself, hself.ampersand⟩
    have hresolved := keepsApart_resolveSelectors hscope hne hselectors
    rw [itemsOf, hrule, legibleHeads_append, legibleHeads_append]
    exact ⟨⟨hresolved.ruleBlock body leaf, ihbody hinner hresolved⟩, ih hrest hscope⟩
  | @condition depth body nodes name prelude _ _ hbody _ ihbody ih =>
    obtain ⟨-, hinner, hrest⟩ := forall_mem_preorderAll_cons.1 hunspliced
    have hcondition : (Node.condition name prelude body).items false scope =
        [.condition name prelude (Sheet.looseItems scope (Sheet.entries false body) ++
          itemsOf false scope body)] := rfl
    rw [itemsOf, hcondition, legibleHeads_append, legibleHeads_condition, legibleHeads_append]
    exact ⟨⟨hscope.looseItems body, ihbody hinner hscope⟩, ih hrest hscope⟩

/-- **A sheet without splicing** asks nothing of the heads of its flat form. -/
theorem isLegibleSheet_of_unspliced {template : String} (hsound : faults template = [])
    (hwords : ∀ t ∈ Token.scan template, t.IsFirm)
    (hunspliced : ∀ n ∈ (parse template).preorder, n.kind = .selector →
      IsUnspliced (n.prop textKey)) : IsLegibleSheet template :=
  ⟨hsound, hwords, (legible_read hsound hwords).legibleHeads
    (fun n hn => hunspliced n (List.mem_cons_of_mem _ hn)) trivial⟩

-- Put together by `&`, selectors that keep to themselves can start a comment.
example : ¬ LegibleHead (resolveSelectors (some ["a/"]) ["&*b"]) := by decide +kernel

end Theming.Sheet
