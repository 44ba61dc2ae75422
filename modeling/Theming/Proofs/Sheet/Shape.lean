import Theming.Sheet.Reading

set_option autoImplicit false

/-! # The shape of trees that are read

No root is read below the root of a template, so optimizing never leaves one as it is. -/

namespace Theming.Sheet

open Node

theorem preorderAll_append (a b : List Node) :
    preorderAll (a ++ b) = preorderAll a ++ preorderAll b := by
  induction a with
  | nil => rfl
  | cons n rest ih => rw [List.cons_append, preorderAll, preorderAll, ih, List.append_assoc]

/-- No root is among some nodes or below them. -/
def NoRoot (nodes : List Node) : Prop := ∀ m ∈ preorderAll nodes, m.kind ≠ .root

theorem NoRoot.nil : NoRoot [] := by
  intro m hm
  cases hm

theorem NoRoot.append {a b : List Node} (ha : NoRoot a) (hb : NoRoot b) : NoRoot (a ++ b) := by
  intro m hm
  rw [preorderAll_append] at hm
  exact (List.mem_append.1 hm).elim (ha m) (hb m)

theorem noRoot_cons_iff {n : Node} {rest : List Node} :
    NoRoot (n :: rest) ↔ NoRoot [n] ∧ NoRoot rest := by
  unfold NoRoot
  rw [← List.singleton_append, preorderAll_append, List.forall_mem_append]

theorem noRoot_mk_iff {kind : Kind} {properties : Table String} {children : List Node} :
    NoRoot [.mk kind properties children] ↔ kind ≠ .root ∧ NoRoot children := by
  unfold NoRoot
  rw [preorderAll, preorderAll, List.append_nil, preorder, List.forall_mem_cons]
  rfl

theorem NoRoot.mk {kind : Kind} (hkind : kind ≠ .root) (properties : Table String)
    {children : List Node} (h : NoRoot children) : NoRoot [.mk kind properties children] :=
  noRoot_mk_iff.2 ⟨hkind, h⟩

theorem noRoot_selectors (texts : List String) : NoRoot (texts.map selector) := by
  induction texts with
  | nil => exact NoRoot.nil
  | cons text rest ih =>
    exact (NoRoot.mk (by decide) [(textKey, text)] NoRoot.nil).append ih

theorem noRoot_readDeclaration (position : Nat) (tokens : List Token) :
    NoRoot (readDeclaration position tokens).nodes := by
  unfold readDeclaration
  split
  · dsimp only
    split
    · exact NoRoot.nil
    · exact NoRoot.mk (by decide) _ NoRoot.nil
  · dsimp only
    split
    · exact NoRoot.nil
    · exact NoRoot.nil

theorem noRoot_readStatement (tokens : List Token) : NoRoot (readStatement tokens).nodes := by
  cases tokens with
  | nil => exact NoRoot.nil
  | cons t rest =>
    rw [readStatement]
    split
    · exact NoRoot.mk (by decide) _ NoRoot.nil
    · exact noRoot_readDeclaration _ _

theorem noRoot_readBlock (head : List Token) (brace : Token) {body : Reading}
    (h : NoRoot body.nodes) : NoRoot (readBlock head brace body).nodes := by
  unfold readBlock
  split
  · split
    · exact NoRoot.mk (by decide) _ h
    · split
      · exact NoRoot.nil
      · exact NoRoot.mk (by decide) _ ((noRoot_selectors _).append h)
  · exact NoRoot.nil

mutual

theorem noRoot_read (depth : Nat) : ∀ c : Chunk, NoRoot (c.read depth).nodes
  | .comment t => NoRoot.mk (by decide) _ NoRoot.nil
  | .statement tokens => noRoot_readStatement tokens
  | .stray t => NoRoot.nil
  | .block head brace body closed => by
    rw [Chunk.read]
    split
    · exact NoRoot.nil
    · exact (noRoot_readBlock head brace (noRoot_readAll (depth + 1) body)).append NoRoot.nil
termination_by structural c => c

theorem noRoot_readAll (depth : Nat) : ∀ chunks : List Chunk,
    NoRoot (Chunk.readAll depth chunks).nodes
  | [] => NoRoot.nil
  | chunk :: rest => (noRoot_read depth chunk).append (noRoot_readAll depth rest)
termination_by structural chunks => chunks

end

/-- A tree has the shape of one if its top is a root, and nothing below it is one. -/
theorem defect?_eq_none_iff {tree : Node} :
    tree.defect? = none ↔ tree.kind = .root ∧ NoRoot tree.children := by
  have hany : (preorderAll tree.children).any (fun m => m.kind = .root) = false ↔
      NoRoot tree.children := by
    simp [NoRoot]
  rw [← hany, defect?]
  split
  · next hkind => simp [hkind]
  · next hkind =>
    cases (preorderAll tree.children).any (fun m => m.kind = .root) <;> simp_all

/-- The tree of a template has the shape of a tree. -/
theorem defect?_parse (template : String) : (parse template).defect? = none :=
  defect?_eq_none_iff.2 ⟨rfl, noRoot_readAll 0 (outline (Token.scan template))⟩

end Theming.Sheet
