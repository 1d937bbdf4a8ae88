import Mathlib.Order.Basic
import Mathlib.Data.List.Nodup

/- The trees of `c-rbtree`, as `policy.c` uses them.

   `c_rbtree_find_slot` and `c_rbtree_find_entry` descend from the root by the sign
   of a comparator of the caller's key against each node: left while negative,
   right while positive, and stop at the node that compares equal or at the empty
   slot below the last node. The model keeps that descent and drops the colours:
   `c_rbtree_add` links the new node at the slot the descent found and then
   recolours and rotates, and rotations keep the in-order sequence of the nodes.
   Every lookup below is decided by that sequence once the tree is ordered, so the
   tree here is the plain search tree with the same sequence.

   What is proved, for a comparator whose sign agrees with a linear order on the
   keys (`Agrees`):
     1. `findEntry_eq_some_iff` — on an ordered tree the lookup finds exactly the
        node whose key is the query's.
     2. `mem_add`, `add_ordered` — linking a node under a key the tree does not
        hold adds exactly that node and keeps the tree ordered.
     3. `toList_modify`, `modify_ordered` — rewriting the node the descent ends on,
        without changing its key, rewrites exactly the node under the query's key.
     4. `Ordered.nodup` — an ordered tree holds each key once.
     5. `modify_eq_self` — rewriting the node the descent finds into itself leaves
        the tree as it was.
   And for every tree, ordered or not, so also for every shape the rotations leave:
     6. `findEntry_eq_none_of_pos`, `toList_add_of_pos` — a query above every node
        finds nothing, and its node is linked last in order.
-/

namespace DbusBroker

/-- A `CRBTree` of entries of type `α`, without the colours. -/
inductive CRBTree (α : Type) where
  | nil
  | node (left : CRBTree α) (entry : α) (right : CRBTree α)
  deriving Repr

namespace CRBTree
variable {α K : Type}

/-- The entries in order. -/
def toList : CRBTree α → List α
  | nil => []
  | node l x r => l.toList ++ x :: r.toList

/-- `c_rbtree_is_empty`. -/
def isEmpty : CRBTree α → Bool
  | nil => true
  | node .. => false

/-- `c_rbtree_find_entry` with comparator `f`, the caller's key against a node. -/
def findEntry (f : α → Int) : CRBTree α → Option α
  | nil => none
  | node l x r =>
    if f x < 0 then findEntry f l else if 0 < f x then findEntry f r else some x

/-- The same descent, the caller then rewriting by `g` the node `c_rbtree_find_slot`
stopped at. -/
def modify (f : α → Int) (g : α → α) : CRBTree α → CRBTree α
  | nil => nil
  | node l x r =>
    if f x < 0 then node (modify f g l) x r
    else if 0 < f x then node l x (modify f g r) else node l (g x) r

/-- `c_rbtree_add` of `n` at the empty slot `c_rbtree_find_slot` returned for `f`
(the tree is left as it is if the descent meets a node comparing equal, where the
source never calls it). -/
def add (f : α → Int) (n : α) : CRBTree α → CRBTree α
  | nil => node nil n nil
  | node l x r =>
    if f x < 0 then node (add f n l) x r
    else if 0 < f x then node l x (add f n r) else node l x r

@[simp] theorem toList_nil : (nil : CRBTree α).toList = [] := rfl
@[simp] theorem toList_node (l : CRBTree α) (x : α) (r : CRBTree α) :
    (node l x r).toList = l.toList ++ x :: r.toList := rfl

theorem isEmpty_iff (t : CRBTree α) : t.isEmpty = true ↔ t.toList = [] := by
  cases t <;> simp [isEmpty]

/-- Rewriting the node the descent finds into what it already is changes nothing. -/
theorem modify_eq_self {f : α → Int} {g : α → α} {x : α} (hg : g x = x) :
    ∀ {t : CRBTree α}, t.findEntry f = some x → t.modify f g = t
  | nil, h => by cases h
  | node l y r, h => by
    unfold findEntry at h
    unfold modify
    split_ifs at h ⊢
    · rw [modify_eq_self hg h]
    · rw [modify_eq_self hg h]
    · cases h; rw [hg]

theorem mem_of_mem_add {f : α → Int} {n y : α} :
    ∀ {t : CRBTree α}, y ∈ (t.add f n).toList → y = n ∨ y ∈ t.toList
  | nil, h => by simpa [add] using h
  | node l x r, h => by
    unfold add at h
    split_ifs at h <;> simp only [toList_node, List.mem_append, List.mem_cons] at h ⊢
    · rcases h with h | h | h
      exacts [(mem_of_mem_add h).imp_right Or.inl, .inr (.inr (.inl h)), .inr (.inr (.inr h))]
    · rcases h with h | h | h
      exacts [.inr (.inl h), .inr (.inr (.inl h)), (mem_of_mem_add h).imp_right (.inr ∘ .inr)]
    · exact .inr h

/-- A query above every node descends right to the empty slot past the last node. -/
theorem findEntry_eq_none_of_pos {f : α → Int} :
    ∀ {t : CRBTree α}, (∀ x ∈ t.toList, 0 < f x) → t.findEntry f = none
  | nil, _ => rfl
  | node l x r, h => by
    have hx := h x (by simp)
    rw [findEntry, if_neg (by omega), if_pos hx]
    exact findEntry_eq_none_of_pos fun y hy => h y (by simp [hy])

theorem toList_add_of_pos {f : α → Int} (n : α) :
    ∀ {t : CRBTree α}, (∀ x ∈ t.toList, 0 < f x) → (t.add f n).toList = t.toList ++ [n]
  | nil, _ => rfl
  | node l x r, h => by
    have hx := h x (by simp)
    rw [add, if_neg (by omega), if_pos hx, toList_node, toList_node,
      toList_add_of_pos n fun y hy => h y (by simp [hy])]
    simp

section Order
variable [LinearOrder K] (key : α → K)

/-- The search-tree order on `key`: every key left of a node is below its key,
every key right of it above. -/
def Ordered : CRBTree α → Prop
  | nil => True
  | node l x r => Ordered l ∧ Ordered r ∧
      (∀ y ∈ l.toList, key y < key x) ∧ ∀ y ∈ r.toList, key x < key y

/-- The comparator `f` of a query with key `q`: negative, zero or positive as `q`
is below, equal to or above the node's key. -/
def Agrees (f : α → Int) (q : K) : Prop :=
  ∀ x, (f x < 0 ↔ q < key x) ∧ (f x = 0 ↔ q = key x)

variable {key}

theorem Agrees.pos_iff {f : α → Int} {q : K} (hf : Agrees key f q) (x : α) :
    0 < f x ↔ key x < q := by
  have h1 := (hf x).1
  have h2 := (hf x).2
  constructor
  · intro h
    rcases lt_trichotomy (key x) q with h' | h' | h'
    · exact h'
    · exact absurd (h2.mpr h'.symm) (by omega)
    · exact absurd (h1.mpr h') (by omega)
  · intro h
    have : ¬ f x < 0 := fun h' => lt_asymm h (h1.mp h')
    have : f x ≠ 0 := fun h' => (ne_of_gt h) (h2.mp h')
    omega

@[simp] theorem ordered_nil : Ordered key (nil : CRBTree α) := trivial

theorem Ordered.nodup : ∀ {t : CRBTree α}, Ordered key t → (t.toList.map key).Nodup
  | nil, _ => List.nodup_nil
  | node l x r, ⟨hl, hr, hlx, hxr⟩ => by
    simp only [toList_node, List.map_append, List.map_cons, List.nodup_append, List.nodup_cons,
      List.mem_map, List.disjoint_cons_right]
    refine ⟨hl.nodup, ⟨?_, hr.nodup⟩, ?_, ?_⟩
    · rintro ⟨y, hy, hyx⟩; exact (hxr y hy).ne hyx.symm
    · rintro ⟨y, hy, hyx⟩; exact (hlx y hy).ne hyx
    · intro k hk hk'
      obtain ⟨y, hy, rfl⟩ := List.mem_map.mp hk
      obtain ⟨z, hz, hzy⟩ := List.mem_map.mp hk'
      exact (lt_trans (hlx y hy) (hxr z hz)).ne hzy.symm

theorem findEntry_eq_some_iff {f : α → Int} {q : K} (hf : Agrees key f q) :
    ∀ {t : CRBTree α} {e : α}, Ordered key t →
      (t.findEntry f = some e ↔ e ∈ t.toList ∧ key e = q)
  | nil, _, _ => by simp [findEntry]
  | node l x r, e, ⟨hl, hr, hlx, hxr⟩ => by
    have hmem : e ∈ (node l x r).toList ↔ e ∈ l.toList ∨ e = x ∨ e ∈ r.toList := by simp
    rw [hmem]
    rcases lt_trichotomy q (key x) with hq | hq | hq
    · rw [findEntry, if_pos ((hf x).1.mpr hq), findEntry_eq_some_iff hf hl]
      constructor
      · exact fun h => ⟨Or.inl h.1, h.2⟩
      · rintro ⟨h | rfl | h, he⟩
        · exact ⟨h, he⟩
        · exact absurd he hq.ne'
        · exact absurd (he ▸ hxr e h) (lt_asymm hq)
    · have h0 : f x = 0 := (hf x).2.mpr hq
      simp only [findEntry, h0, lt_irrefl, if_false, Option.some.injEq]
      constructor
      · rintro rfl; exact ⟨Or.inr (Or.inl rfl), hq.symm⟩
      · rintro ⟨h | rfl | h, he⟩
        · exact absurd (he ▸ hlx e h) (by rw [hq]; exact lt_irrefl _)
        · rfl
        · exact absurd (he ▸ hxr e h) (by rw [hq]; exact lt_irrefl _)
    · have hneg : ¬ f x < 0 := fun h => lt_asymm hq ((hf x).1.mp h)
      rw [findEntry, if_neg hneg, if_pos ((hf.pos_iff x).mpr hq), findEntry_eq_some_iff hf hr]
      constructor
      · exact fun h => ⟨Or.inr (Or.inr h.1), h.2⟩
      · rintro ⟨h | rfl | h, he⟩
        · exact absurd (he ▸ hlx e h) (lt_asymm hq)
        · exact absurd he hq.ne
        · exact ⟨h, he⟩

theorem findEntry_eq_none_iff {f : α → Int} {q : K} (hf : Agrees key f q) {t : CRBTree α}
    (ht : Ordered key t) : t.findEntry f = none ↔ ∀ e ∈ t.toList, key e ≠ q := by
  rw [Option.eq_none_iff_forall_not_mem]
  exact forall_congr' fun e => by rw [Option.mem_def, findEntry_eq_some_iff hf ht, not_and]

theorem mem_add {f : α → Int} {q : K} (hf : Agrees key f q) (n : α) :
    ∀ {t : CRBTree α}, (∀ e ∈ t.toList, key e ≠ q) →
      ∀ y, y ∈ (t.add f n).toList ↔ y = n ∨ y ∈ t.toList
  | nil, _, y => by simp [add]
  | node l x r, hnew, y => by
    have hx : ¬ f x = 0 := fun h => hnew x (by simp) ((hf x).2.mp h).symm
    simp only [toList_node, List.mem_append, List.mem_cons] at hnew
    unfold add
    split
    · simp only [toList_node, List.mem_append, List.mem_cons,
        mem_add hf n (fun e he => hnew e (Or.inl he)) y, or_assoc]
    · split
      · simp only [toList_node, List.mem_append, List.mem_cons,
          mem_add hf n (fun e he => hnew e (Or.inr (Or.inr he))) y, or_left_comm]
      · omega

theorem add_ordered {f : α → Int} {q : K} (hf : Agrees key f q) {n : α} (hn : key n = q) :
    ∀ {t : CRBTree α}, Ordered key t → (∀ e ∈ t.toList, key e ≠ q) → Ordered key (t.add f n)
  | nil, _, _ => by simp [add, Ordered]
  | node l x r, ⟨hl, hr, hlx, hxr⟩, hnew => by
    have hnl : ∀ e ∈ l.toList, key e ≠ q := fun e he => hnew e (by simp [he])
    have hnr : ∀ e ∈ r.toList, key e ≠ q := fun e he => hnew e (by simp [he])
    unfold add
    split
    · next h =>
      refine ⟨add_ordered hf hn hl hnl, hr, fun y hy => ?_, hxr⟩
      rcases (mem_add hf n hnl y).mp hy with rfl | hy
      · exact hn ▸ (hf x).1.mp h
      · exact hlx y hy
    · split
      · next h' =>
        refine ⟨hl, add_ordered hf hn hr hnr, hlx, fun y hy => ?_⟩
        rcases (mem_add hf n hnr y).mp hy with rfl | hy
        · exact hn ▸ (hf.pos_iff x).mp h'
        · exact hxr y hy
      · exact ⟨hl, hr, hlx, hxr⟩

omit [LinearOrder K] in
theorem toList_modify_keys {f : α → Int} {g : α → α} (hg : ∀ x, key (g x) = key x) :
    ∀ t : CRBTree α, (t.modify f g).toList.map key = t.toList.map key
  | nil => rfl
  | node l x r => by
    unfold modify
    split
    · simp [toList_modify_keys hg l]
    · split
      · simp [toList_modify_keys hg r]
      · simp [hg]

theorem modify_ordered {f : α → Int} {g : α → α} (hg : ∀ x, key (g x) = key x) :
    ∀ {t : CRBTree α}, Ordered key t → Ordered key (t.modify f g)
  | nil, _ => trivial
  | node l x r, ⟨hl, hr, hlx, hxr⟩ => by
    have keys : ∀ (s : CRBTree α) (y : α), y ∈ (s.modify f g).toList → ∃ z ∈ s.toList, key y = key z :=
      fun s y hy => by
        obtain ⟨z, hz, hzy⟩ := List.mem_map.mp
          ((toList_modify_keys hg s) ▸ List.mem_map_of_mem key hy)
        exact ⟨z, hz, hzy.symm⟩
    unfold modify
    split
    · refine ⟨modify_ordered hg hl, hr, fun y hy => ?_, hxr⟩
      obtain ⟨z, hz, hyz⟩ := keys l y hy
      exact hyz ▸ hlx z hz
    · split
      · refine ⟨hl, modify_ordered hg hr, hlx, fun y hy => ?_⟩
        obtain ⟨z, hz, hyz⟩ := keys r y hy
        exact hyz ▸ hxr z hz
      · exact ⟨hl, hr, fun y hy => hg x ▸ hlx y hy, fun y hy => hg x ▸ hxr y hy⟩

theorem map_modify_self {g : α → α} {q : K} {l : List α} (h : ∀ y ∈ l, key y ≠ q) :
    l.map (fun y => if key y = q then g y else y) = l := by
  conv_rhs => rw [← List.map_id l]
  exact List.map_congr_left fun y hy => by simp [h y hy]

theorem toList_modify {f : α → Int} {q : K} (hf : Agrees key f q) (g : α → α) :
    ∀ {t : CRBTree α}, Ordered key t →
      (t.modify f g).toList = t.toList.map (fun y => if key y = q then g y else y)
  | nil, _ => rfl
  | node l x r, ⟨hl, hr, hlx, hxr⟩ => by
    rcases lt_trichotomy q (key x) with hq | hq | hq
    · have hr' : ∀ y ∈ r.toList, key y ≠ q := fun y hy => (lt_trans hq (hxr y hy)).ne'
      rw [modify, if_pos ((hf x).1.mpr hq)]
      simp [toList_modify hf g hl, hq.ne', map_modify_self hr']
    · have hl' : ∀ y ∈ l.toList, key y ≠ q := fun y hy => hq ▸ (hlx y hy).ne
      have hr' : ∀ y ∈ r.toList, key y ≠ q := fun y hy => hq ▸ (hxr y hy).ne'
      have h0 : f x = 0 := (hf x).2.mpr hq
      subst hq
      simp [modify, h0, map_modify_self hl', map_modify_self hr']
    · have hl' : ∀ y ∈ l.toList, key y ≠ q := fun y hy => (lt_trans (hlx y hy) hq).ne
      have hneg : ¬ f x < 0 := fun h => lt_asymm hq ((hf x).1.mp h)
      rw [modify, if_neg hneg, if_pos ((hf.pos_iff x).mpr hq)]
      simp [toList_modify hf g hr, hq.ne, map_modify_self hl']

end Order

end CRBTree

end DbusBroker
