import Theming.Proofs.Sheet.Lengths
import Theming.Proofs.Sheet.Positions
import Theming.Proofs.Sheet.WellFormed

set_option autoImplicit false

/-! # What the basic level drops

Tidying is two sweeps: declarations of nothing, then blocks without content, innermost first. A block
that loses its blocks loses its content, so a test on the tidied block decides on the block itself
(`staysTidy`). Here that test is traced to what stands in the template. In a tree where only blocks
have children, a tidied block has content just when a declaration below it stays with all blocks on
the way to it (`hasContent_tidy_iff`).

Main statement: `optimize_basic_survivors`. -/

namespace Theming.Sheet

open Node

/-! ## The test -/

/-- Whether tidying keeps a node among the children it belongs to. -/
def staysTidy (n : Node) : Bool := !n.setsNothing && (!n.tidy.isBlock || n.tidy.hasContent)

theorem thins_tidy : Thins staysTidy tidy := ⟨keepsHead_tidy, children_tidy⟩

theorem staysTidy_of_isBlock {n : Node} (h : n.isBlock = true) :
    staysTidy n = n.tidy.hasContent := by
  have hkind : n.kind ≠ .declaration := by
    intro hk
    simp [isBlock, hk] at h
  simp [staysTidy, setsNothing, setsProperty, hkind, keepsHead_tidy.isBlock, h]

theorem staysTidy_of_not_isBlock {n : Node} (h : n.isBlock = false) :
    staysTidy n = !n.setsNothing := by
  simp [staysTidy, keepsHead_tidy.isBlock, h]

theorem staysTidy_of_declaration {n : Node} (h : n.kind = .declaration) :
    staysTidy n = true ↔ n.isStatement = true ∨ Text.allBlank (n.prop valueKey) = false := by
  rw [staysTidy_of_not_isBlock (by simp [isBlock, h])]
  simp only [setsNothing, setsProperty, h, decide_true, Bool.true_and, Bool.not_and, Bool.not_not,
    Bool.or_eq_true, Bool.not_eq_true']

/-! ## Content of tidied blocks -/

/-- Below a node, only blocks have children. -/
def OnlyBlocksOpen (n : Node) : Prop :=
  ∀ m ∈ preorderAll n.children, m.isBlock = false → m.children = []

theorem onlyBlocksOpen_iff {n : Node} :
    OnlyBlocksOpen n ↔
      ∀ c ∈ n.children, (c.isBlock = false → c.children = []) ∧ OnlyBlocksOpen c :=
  forall_below_iff

theorem OnlyBlocksOpen.at? {n m : Node} {p : List Nat} (hn : OnlyBlocksOpen n)
    (hm : n.at? p = some m) : OnlyBlocksOpen m := by
  induction p generalizing n with
  | nil => exact Option.some_inj.1 hm ▸ hn
  | cons i rest ih =>
    obtain ⟨c, hc, hcm⟩ := at?_cons_eq_some.1 hm
    exact ih (onlyBlocksOpen_iff.1 hn c (List.mem_of_getElem? hc)).2 hcm

/-- A node stands where it is, or it stands below a block. -/
theorem eq_nil_or_isBlock {n m : Node} {p : List Nat} (hn : n.isBlock = false → n.children = [])
    (hm : n.at? p = some m) : p = [] ∨ n.isBlock = true := by
  cases p with
  | nil => exact Or.inl rfl
  | cons i rest =>
    right
    by_contra hblock
    obtain ⟨c, hc, -⟩ := at?_cons_eq_some.1 hm
    rw [hn (by simpa using hblock)] at hc
    cases hc

theorem mem_children_tidy {n c : Node} (hc : c ∈ n.children) (hstays : staysTidy c = true) :
    c.tidy ∈ n.tidy.children := by
  rw [thins_tidy.children]
  exact List.mem_map_of_mem (List.mem_filter.2 ⟨hc, hstays⟩)

/-- **A tidied node has content just when a declaration below it stays**, and all blocks on the way
    to it with it. -/
theorem hasContent_tidy_iff {n : Node} (hn : OnlyBlocksOpen n) :
    n.tidy.hasContent = true ↔
      ∃ q m, q ≠ [] ∧ n.at? q = some m ∧ m.kind = .declaration ∧ Lasts staysTidy q n := by
  induction n using children_induction with
  | step n ih =>
    constructor
    · intro h
      obtain ⟨d, hd, hcontent⟩ := List.any_eq_true.1 h
      rw [thins_tidy.children] at hd
      obtain ⟨c, hc, rfl⟩ := List.mem_map.1 hd
      obtain ⟨hmem, hstays⟩ := List.mem_filter.1 hc
      obtain ⟨i, hi⟩ := List.getElem?_of_mem hmem
      rw [keepsHead_tidy.isBlock, keepsHead_tidy.kind, Bool.or_eq_true,
        decide_eq_true_eq] at hcontent
      rcases hcontent with hkind | hblock
      · exact ⟨[i], c, List.cons_ne_nil _ _, at?_cons_eq_some.2 ⟨c, hi, rfl⟩, hkind,
          c, hi, hstays, trivial⟩
      · -- The declaration is further down, where the block has its content from.
        have hinner := staysTidy_of_isBlock hblock ▸ hstays
        obtain ⟨q, m, -, hm, hkind, hlasts⟩ :=
          (ih c hmem (onlyBlocksOpen_iff.1 hn c hmem).2).1 hinner
        exact ⟨i :: q, m, List.cons_ne_nil _ _, at?_cons_eq_some.2 ⟨c, hi, hm⟩, hkind,
          c, hi, hstays, hlasts⟩
    · rintro ⟨q, m, hq, hm, hkind, hlasts⟩
      cases q with
      | nil => exact absurd rfl hq
      | cons i rest =>
        obtain ⟨c, hc, hstays, -⟩ := hlasts
        obtain ⟨c', hc', hcm⟩ := at?_cons_eq_some.1 hm
        obtain rfl : c = c' := Option.some_inj.1 (hc.symm.trans hc')
        have hmem := List.mem_of_getElem? hc
        refine List.any_eq_true.2 ⟨c.tidy, mem_children_tidy hmem hstays, ?_⟩
        rw [keepsHead_tidy.isBlock, keepsHead_tidy.kind]
        rcases eq_nil_or_isBlock (onlyBlocksOpen_iff.1 hn c hmem).1 hcm with rfl | hblock
        · obtain rfl : c = m := Option.some_inj.1 hcm
          simp [hkind]
        · simp [hblock]

/-! ## What lasts -/

/-- A declaration that stays lasts: it is content for each block around it. -/
theorem lasts_declaration {n m : Node} {p : List Nat} (hn : OnlyBlocksOpen n)
    (hm : n.at? p = some m) (hkind : m.kind = .declaration) (hstays : staysTidy m = true) :
    Lasts staysTidy p n := by
  induction p generalizing n with
  | nil => trivial
  | cons i rest ih =>
    obtain ⟨c, hc, hcm⟩ := at?_cons_eq_some.1 hm
    obtain ⟨hopen, hbelow⟩ := onlyBlocksOpen_iff.1 hn c (List.mem_of_getElem? hc)
    have hlasts := ih hbelow hcm
    refine ⟨c, hc, ?_, hlasts⟩
    by_cases hrest : rest = []
    · subst hrest
      obtain rfl : c = m := Option.some_inj.1 hcm
      exact hstays
    · have hblock := (eq_nil_or_isBlock hopen hcm).resolve_left hrest
      rw [staysTidy_of_isBlock hblock]
      exact (hasContent_tidy_iff hbelow).2 ⟨rest, m, hrest, hcm, hkind, hlasts⟩

theorem lasts_declaration_iff {n m : Node} {p : List Nat} (hn : OnlyBlocksOpen n) (hp : p ≠ [])
    (hm : n.at? p = some m) (hkind : m.kind = .declaration) :
    Lasts staysTidy p n ↔
      m.isStatement = true ∨ Text.allBlank (m.prop valueKey) = false := by
  rw [← staysTidy_of_declaration hkind]
  exact ⟨fun h => h.stays hm hp, lasts_declaration hn hm hkind⟩

theorem lasts_block_iff {n m : Node} {p : List Nat} (hn : OnlyBlocksOpen n) (hp : p ≠ [])
    (hm : n.at? p = some m) (hblock : m.isBlock = true) :
    Lasts staysTidy p n ↔
      ∃ q d, m.at? q = some d ∧ d.kind = .declaration ∧ Lasts staysTidy (p ++ q) n := by
  constructor
  · intro h
    have hcontent := staysTidy_of_isBlock hblock ▸ h.stays hm hp
    obtain ⟨q, d, -, hd, hkind, hlasts⟩ := (hasContent_tidy_iff (hn.at? hm)).1 hcontent
    exact ⟨q, d, hd, hkind, (lasts_append hm).2 ⟨h, hlasts⟩⟩
  · rintro ⟨q, d, -, -, hlasts⟩
    exact ((lasts_append hm).1 hlasts).1

/-- A node that is neither a block nor a declaration lasts with its parent. -/
theorem lasts_other_iff {n m : Node} {p : List Nat} (hm : n.at? p = some m)
    (hblock : m.isBlock = false) (hkind : m.kind ≠ .declaration) :
    Lasts staysTidy p n ↔ Lasts staysTidy p.dropLast n := by
  have hstays : staysTidy m = true := by
    simp [staysTidy_of_not_isBlock hblock, setsNothing, setsProperty, hkind]
  rcases List.eq_nil_or_concat p with rfl | ⟨above, i, rfl⟩
  · exact Iff.rfl
  · rw [List.concat_eq_append] at hm ⊢
    rw [at?_append, Option.bind_eq_some_iff] at hm
    obtain ⟨parent, hparent, hm⟩ := hm
    obtain ⟨c, hc, hcm⟩ := at?_cons_eq_some.1 hm
    obtain rfl : c = m := Option.some_inj.1 hcm
    rw [List.dropLast_concat, lasts_append hparent]
    exact and_iff_left ⟨c, hc, hstays, trivial⟩

/-! ## The basic level -/

theorem onlyBlocksOpen_parse (template : String) : OnlyBlocksOpen (parse template) := fun m hm =>
  ((built_parse template).isSound m hm).leaf
    ((defect?_eq_none_iff.1 (defect?_parse template)).2 m hm)

/-- **The basic level drops what says nothing, and only that.** Whatever the template is, the result
    remains from its tree: nodes keep their texts, their parents and their order. A declaration
    survives if it is a statement or its value is not blank, and only then; a block if a declaration
    in it does; a selector and a comment if their parent does. -/
theorem optimize_basic_survivors (template : String) :
    let tree := parse template
    let out := (optimize .basic tree).1
    ∃ origin, Remains origin out tree ∧ ∀ p n, tree.at? p = some n →
      (n.kind = .declaration →
        (Survives origin out p ↔
          n.isStatement = true ∨ Text.allBlank (n.prop valueKey) = false)) ∧
      (n.isBlock = true →
        (Survives origin out p ↔
          ∃ q d, n.at? q = some d ∧ d.kind = .declaration ∧ Survives origin out (p ++ q))) ∧
      (n.kind = .selector ∨ n.kind = .comment →
        (Survives origin out p ↔ Survives origin out p.dropLast)) := by
  intro tree out
  have hopen : OnlyBlocksOpen tree := onlyBlocksOpen_parse template
  have hout : out = tree.tidy :=
    optimize_of_defect?_eq_none (defect?_parse template) .basic
  refine ⟨(Sheet.origin staysTidy · tree), hout ▸ thins_tidy.remains tree, fun p n hn => ?_⟩
  simp only [hout, thins_tidy.survives_iff]
  -- Only the root stands at the top.
  have hp : n.kind ≠ .root → p ≠ [] := by
    rintro hkind rfl
    rw [at?_nil, Option.some_inj] at hn
    exact hkind (hn ▸ rfl)
  refine ⟨fun hkind => ?_, fun hblock => ?_, fun hkind => ?_⟩
  · exact lasts_declaration_iff hopen (hp (by simp [hkind])) hn hkind
  · refine lasts_block_iff hopen (hp fun hroot => ?_) hn hblock
    simp [isBlock, hroot] at hblock
  · apply lasts_other_iff hn
    · rcases hkind with hkind | hkind <;> simp [isBlock, hkind]
    · rcases hkind with hkind | hkind <;> simp [hkind]

end Theming.Sheet
