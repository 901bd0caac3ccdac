import Mathlib.Data.List.Basic

set_option autoImplicit false

-- Ordered forests in preorder, and how they grow along their rightmost path.
namespace Aliot

inductive Forest (α : Type) where
  | nil
  | cons (root : α) (children rest : Forest α)

namespace Forest

variable {α : Type}

def listed : Forest α → List α
  | nil => []
  | cons root children rest => root :: (children.listed ++ rest.listed)

def roots : Forest α → Nat
  | nil => 0
  | cons _ _ rest => rest.roots + 1

def append : Forest α → Forest α → Forest α
  | nil, other => other
  | cons root children rest, other => cons root children (rest.append other)

-- Every node knows how many children it has.
def Counts (count : α → Nat) : Forest α → Prop
  | nil => True
  | cons root children rest => count root = children.roots ∧ children.Counts count ∧ rest.Counts count

-- What is listed behind a node without being below it is apart from it.
def Apart (apart : α → α → Prop) : Forest α → Prop
  | nil => True
  | cons root children rest =>
      (∀ node ∈ root :: children.listed, ∀ later ∈ rest.listed, apart node later) ∧
        children.Apart apart ∧ rest.Apart apart

@[simp] theorem append_listed (front back : Forest α) : (front.append back).listed = front.listed ++ back.listed := by
  induction front with
  | nil => rfl
  | cons root children rest _ ih => simp [append, listed, ih]

@[simp] theorem append_roots (front back : Forest α) : (front.append back).roots = front.roots + back.roots := by
  induction front with
  | nil => simp [append, roots]
  | cons root children rest _ ih =>
      simp only [append, roots, ih]
      exact Nat.add_right_comm _ _ _

@[simp] theorem counts_append (count : α → Nat) (front back : Forest α) :
    (front.append back).Counts count ↔ front.Counts count ∧ back.Counts count := by
  induction front with
  | nil => simp [append, Counts]
  | cons root children rest _ ih => simp [append, Counts, ih, and_assoc]

@[simp] theorem apart_append (apart : α → α → Prop) (front back : Forest α) :
    (front.append back).Apart apart ↔ front.Apart apart ∧ back.Apart apart ∧
      ∀ node ∈ front.listed, ∀ later ∈ back.listed, apart node later := by
  induction front with
  | nil => simp [append, Apart, listed]
  | cons root children rest _ ih =>
      simp only [append, Apart, listed, ih, append_listed, List.mem_append, List.mem_cons]
      constructor
      · rintro ⟨behind, below, inner, outer, across⟩
        refine ⟨⟨fun node member later found => behind node member later (.inl found), below, inner⟩, outer, ?_⟩
        rintro node (same | child | sibling) later found
        · exact behind node (.inl same) later (.inr found)
        · exact behind node (.inr child) later (.inr found)
        · exact across node sibling later found
      · rintro ⟨⟨behind, below, inner⟩, outer, across⟩
        refine ⟨?_, below, inner, outer, fun node sibling => across node (.inr (.inr sibling))⟩
        intro node member later found
        rcases found with sibling | beyond
        · exact behind node member later sibling
        · rcases member with same | child
          · exact across node (.inl same) later beyond
          · exact across node (.inr (.inl child)) later beyond

-- A rightmost path from the root down: each node with the complete trees on its left.
abbrev Path (α : Type) := List (Forest α × α)

def folded : Path α → Forest α
  | [] => nil
  | (left, node) :: below => left.append (cons node (folded below) nil)

def pathListed : Path α → List α
  | [] => []
  | (left, node) :: below => left.listed ++ node :: pathListed below

-- The nodes on the left of the path.
def leftOf : Path α → List α
  | [] => []
  | (left, _) :: below => left.listed ++ leftOf below

@[simp] theorem folded_listed (path : Path α) : (folded path).listed = pathListed path := by
  induction path with
  | nil => rfl
  | cons frame below ih => simp [folded, pathListed, listed, ih]

@[simp] theorem path_listed_append (front back : Path α) : pathListed (front ++ back) = pathListed front ++ pathListed back := by
  induction front with
  | nil => rfl
  | cons frame front ih => simp [pathListed, ih]

@[simp] theorem left_of_append (front back : Path α) : leftOf (front ++ back) = leftOf front ++ leftOf back := by
  induction front with
  | nil => rfl
  | cons frame front ih => simp [leftOf, ih]

theorem left_of_listed (path : Path α) : ∀ node ∈ leftOf path, node ∈ pathListed path := by
  induction path with
  | nil => simp [leftOf]
  | cons frame below ih =>
      simp only [leftOf, pathListed, List.mem_append, List.mem_cons]
      rintro node (left | later)
      · exact .inl left
      · exact .inr (.inr (ih node later))

-- However a path goes on, what hangs from its first frame is one tree.
theorem folded_roots (front below back : Path α) (left : Forest α) (node other : α) :
    (folded (front ++ (left, node) :: below)).roots = (folded (front ++ (left, other) :: back)).roots := by
  cases front with
  | nil => simp [folded, roots]
  | cons frame front => simp [folded, roots]

theorem counts_rooted (count : α → Nat) (back : Path α) (node : α) (leaf : count node = 0)
    (counts : (folded back).Counts count) : (folded [(folded back, node)]).Counts count := by
  simpa [folded, Counts, roots, leaf] using counts

-- A node added below `last`: what was below it is complete, and it counts one child more.
theorem counts_hung (count : α → Nat) (front back : Path α) (left : Forest α) (last grown node : α) (leaf : count node = 0)
    (counted : count grown = count last + 1) (counts : (folded (front ++ (left, last) :: back)).Counts count) :
    (folded (front ++ [(left, grown), (folded back, node)])).Counts count := by
  induction front with
  | nil =>
      simp only [List.nil_append, folded, counts_append, Counts] at counts ⊢
      obtain ⟨complete, size, below, _⟩ := counts
      have inner := counts_rooted count back node leaf below
      simp only [folded, counts_append, Counts] at inner
      refine ⟨complete, ?_, inner, trivial⟩
      simp [counted, size, roots]
  | cons frame front ih =>
      simp only [List.cons_append, folded, counts_append, Counts] at counts ⊢
      obtain ⟨complete, size, below, _⟩ := counts
      exact ⟨complete, size.trans (folded_roots front _ _ left last grown), ih below, trivial⟩

theorem counts_changed (count : α → Nat) (front back : Path α) (left : Forest α) (old new : α) (same : count new = count old)
    (counts : (folded (front ++ (left, old) :: back)).Counts count) :
    (folded (front ++ (left, new) :: back)).Counts count := by
  induction front with
  | nil => simpa [folded, Counts, same] using counts
  | cons frame front ih =>
      simp only [List.cons_append, folded, counts_append, Counts] at counts ⊢
      obtain ⟨complete, size, below, _⟩ := counts
      exact ⟨complete, size.trans (folded_roots front _ _ left old new), ih below, trivial⟩

theorem apart_frame (apart : α → α → Prop) (left : Forest α) (node : α) (below : Path α) :
    (folded ((left, node) :: below)).Apart apart ↔ left.Apart apart ∧ (folded below).Apart apart ∧
      ∀ earlier ∈ left.listed, ∀ later ∈ node :: pathListed below, apart earlier later := by
  simp [folded, Apart, listed]

theorem apart_extended (apart : α → α → Prop) (front back : Path α) (node : α)
    (behind : ∀ earlier ∈ leftOf front ++ pathListed back, apart earlier node)
    (parted : (folded (front ++ back)).Apart apart) : (folded (front ++ [(folded back, node)])).Apart apart := by
  induction front with
  | nil =>
      rw [List.nil_append, apart_frame]
      refine ⟨parted, trivial, fun earlier found later member => ?_⟩
      rw [List.mem_singleton.mp member]
      exact behind earlier (by simpa [leftOf] using found)
  | cons frame front ih =>
      obtain ⟨left, last⟩ := frame
      rw [List.cons_append, apart_frame] at parted ⊢
      obtain ⟨complete, below, across⟩ := parted
      simp only [leftOf, List.append_assoc, List.mem_append] at behind
      refine ⟨complete, ih (fun earlier found => behind earlier (.inr (List.mem_append.mp found))) below, ?_⟩
      intro earlier found later member
      simp only [path_listed_append, pathListed, folded_listed, List.mem_cons, List.mem_append, List.not_mem_nil, or_false]
        at member
      rcases member with rfl | front | back | rfl
      · exact across earlier found later List.mem_cons_self
      · exact across earlier found later (by simp [front])
      · exact across earlier found later (by simp [back])
      · exact behind earlier (.inl found)

theorem apart_changed (apart : α → α → Prop) (front back : Path α) (left : Forest α) (old new : α)
    (kept : ∀ earlier, apart earlier old → apart earlier new)
    (parted : (folded (front ++ (left, old) :: back)).Apart apart) :
    (folded (front ++ (left, new) :: back)).Apart apart := by
  induction front with
  | nil =>
      rw [List.nil_append, apart_frame] at parted ⊢
      obtain ⟨complete, below, across⟩ := parted
      refine ⟨complete, below, fun earlier found later member => ?_⟩
      cases member with
      | head => exact kept earlier (across earlier found old List.mem_cons_self)
      | tail _ member => exact across earlier found later (List.mem_cons_of_mem _ member)
  | cons frame front ih =>
      obtain ⟨lefter, above⟩ := frame
      rw [List.cons_append, apart_frame] at parted ⊢
      obtain ⟨complete, below, across⟩ := parted
      refine ⟨complete, ih below, fun earlier found later member => ?_⟩
      simp only [path_listed_append, pathListed, List.mem_cons, List.mem_append] at member
      rcases member with rfl | front | left | rfl | back
      · exact across earlier found later List.mem_cons_self
      · exact across earlier found later (by simp [front])
      · exact across earlier found later (by simp [pathListed, left])
      · exact kept earlier (across earlier found old (by simp [pathListed]))
      · exact across earlier found later (by simp [pathListed, back])

-- The last node that passes a test is on the path, unless one on its left does.
theorem last_on_path (test : α → Bool) (path : Path α) (failing : ∀ node ∈ leftOf path, test node = false) :
    (∀ node ∈ pathListed path, test node = false) ∨ ∃ front left node back, path = front ++ (left, node) :: back ∧
      test node = true ∧ ∀ later ∈ pathListed back, test later = false := by
  induction path with
  | nil => exact .inl (by simp [pathListed])
  | cons frame below ih =>
      obtain ⟨left, node⟩ := frame
      simp only [leftOf, List.mem_append] at failing
      rcases ih (fun other found => failing other (.inr found)) with none | ⟨front, lefter, last, back, rfl, passing, behind⟩
      · cases passing : test node with
        | true => exact .inr ⟨[], left, node, below, rfl, passing, none⟩
        | false =>
            refine .inl (fun other member => ?_)
            simp only [pathListed, List.mem_append, List.mem_cons] at member
            rcases member with found | rfl | later
            · exact failing other (.inl found)
            · exact passing
            · exact none other later
      · exact .inr ⟨(left, node) :: front, lefter, last, back, rfl, passing, behind⟩

end Forest

end Aliot
