import HighCache.Lib.Execution
import Mathlib.Data.List.Nodup
import Mathlib.Order.Nat

/-!
# Linked lists with stable iterators

A `std::list` is a sequence of nodes whose identity survives every change of the sequence: an
iterator names a node, not a position, and keeps naming it while other nodes come and go. The
model gives each node a number that is never reused, so an iterator is that number and "designates
the node holding `a`" is membership of a pair.

Using an iterator whose node is gone is undefined behaviour in C++ and `Fault.invalidIterator`
here. Freshness of the numbers and their distinctness are fields, so a list with two nodes of one
identity cannot be built.
-/

/-- A linked list: its nodes from front to back, each with its identity, and the identity the next
new node will get. -/
structure NodeList (α : Type) where
  /-- The nodes, front first. -/
  nodes : List (ℕ × α)
  /-- The identity of the next new node. -/
  next : ℕ
  /-- No two nodes share an identity. -/
  nodup : (nodes.map Prod.fst).Nodup
  /-- Every identity in use was handed out before. -/
  lt_next : ∀ n ∈ nodes, n.1 < next

/-! ## The operations -/

namespace NodeList

variable {α : Type}

/-- The list without nodes. -/
def empty : NodeList α where
  nodes := []
  next := 0
  nodup := List.nodup_nil
  lt_next := by simp

/-- The elements, front first. -/
def values (l : NodeList α) : List α := l.nodes.map Prod.snd

/-- `begin()`, which designates nothing on an empty list. -/
def begin? (l : NodeList α) : Option ℕ := l.nodes.head?.map Prod.fst

/-- `back()`, which is undefined on an empty list. -/
def back? (l : NodeList α) : Option α := l.nodes.getLast?.map Prod.snd

/-- `push_front(a)`. -/
def pushFront (a : α) (l : NodeList α) : NodeList α where
  nodes := (l.next, a) :: l.nodes
  next := l.next + 1
  nodup := by
    rw [List.map_cons, List.nodup_cons]
    refine ⟨fun hmem ↦ ?_, l.nodup⟩
    obtain ⟨n, hn, heq⟩ := List.mem_map.mp hmem
    exact absurd (l.lt_next n hn) (by rw [heq]; exact lt_irrefl _)
  lt_next := by
    intro n hn
    rcases List.mem_cons.mp hn with rfl | hn
    · exact Nat.lt_succ_self _
    · exact (l.lt_next n hn).trans (Nat.lt_succ_self _)

/-- The nodes other than `it`. -/
def without (it : ℕ) (l : NodeList α) : NodeList α where
  nodes := l.nodes.filter fun n ↦ n.1 ≠ it
  next := l.next
  nodup := l.nodup.sublist (List.filter_sublist.map _)
  lt_next := fun n hn ↦ l.lt_next n (List.mem_of_mem_filter hn)

/-- `erase(it)`. -/
def erase (it : ℕ) (l : NodeList α) : Except Fault (NodeList α) :=
  if it ∈ l.nodes.map Prod.fst then .ok (l.without it) else .error .invalidIterator

/-- `pop_front()`. -/
def popFront (l : NodeList α) : Except Fault (NodeList α) :=
  match l.begin? with
  | none => .error .invalidIterator
  | some it => l.erase it

private theorem nodup_cons_without {l : NodeList α} {n : ℕ × α} :
    ((n :: (l.without n.1).nodes).map Prod.fst).Nodup := by
  rw [List.map_cons, List.nodup_cons]
  refine ⟨fun hmem ↦ ?_, (l.without n.1).nodup⟩
  obtain ⟨m, hm, heq⟩ := List.mem_map.mp hmem
  exact absurd heq (by simpa using List.of_mem_filter hm)

/-- `splice(begin(), *this, it)`: the node moves to the front and keeps its identity. -/
def spliceFront (it : ℕ) (l : NodeList α) : Except Fault (NodeList α) :=
  match h : l.nodes.find? fun n ↦ n.1 = it with
  | none => .error .invalidIterator
  | some n => .ok {
      nodes := n :: (l.without n.1).nodes
      next := l.next
      nodup := nodup_cons_without
      lt_next := by
        intro m hm
        rcases List.mem_cons.mp hm with rfl | hm
        · exact l.lt_next _ (List.mem_of_find?_eq_some h)
        · exact (l.without n.1).lt_next m hm }

/-! ## What the operations leave

The operations that use an iterator may fault; the laws say that they do not where the iterator
designates an element, and which nodes there are then. Identities are not in the laws beyond that:
two lists with the same nodes behave alike. -/

@[simp] theorem pushFront_nodes (a : α) (l : NodeList α) :
    (l.pushFront a).nodes = (l.next, a) :: l.nodes := rfl

@[simp] theorem begin?_pushFront (a : α) (l : NodeList α) :
    (l.pushFront a).begin? = some l.next := rfl

@[simp] theorem without_nodes (it : ℕ) (l : NodeList α) :
    (l.without it).nodes = l.nodes.filter fun n ↦ n.1 ≠ it := rfl

theorem eq_of_mem {l : NodeList α} {it : ℕ} {a b : α} (ha : (it, a) ∈ l.nodes)
    (hb : (it, b) ∈ l.nodes) : a = b := by
  have h := List.inj_on_of_nodup_map l.nodup ha hb rfl
  exact congrArg Prod.snd h

theorem erase_eq {l : NodeList α} {it : ℕ} {a : α} (h : (it, a) ∈ l.nodes) :
    l.erase it = .ok (l.without it) :=
  if_pos (List.mem_map_of_mem h)

/-- `pop_front` undoes `push_front`, apart from the identity it used up. -/
theorem popFront_pushFront (a : α) (l : NodeList α) :
    ∃ l', (l.pushFront a).popFront = .ok l' ∧ l'.nodes = l.nodes := by
  refine ⟨(l.pushFront a).without l.next, ?_, ?_⟩
  · exact erase_eq (a := a) List.mem_cons_self
  · rw [without_nodes, pushFront_nodes, List.filter_cons_of_neg (by simp)]
    exact List.filter_eq_self.mpr fun n hn ↦ by simpa using (l.lt_next n hn).ne

theorem spliceFront_eq {l : NodeList α} {it : ℕ} {a : α} (h : (it, a) ∈ l.nodes) :
    ∃ l', l.spliceFront it = .ok l'
      ∧ l'.nodes = (it, a) :: l.nodes.filter fun n ↦ n.1 ≠ it := by
  have hfind : l.nodes.find? (fun n ↦ n.1 = it) = some (it, a) := by
    cases hf : l.nodes.find? (fun n ↦ n.1 = it) with
    | none => exact absurd (List.find?_eq_none.mp hf _ h) (by simp)
    | some n =>
      obtain ⟨i, b⟩ := n
      have hi : i = it := by simpa using List.find?_some hf
      subst hi
      rw [eq_of_mem (List.mem_of_find?_eq_some hf) h]
  unfold spliceFront
  split
  · rename_i hnone
    rw [hfind] at hnone
    cases hnone
  · rename_i n hsome
    rw [hfind, Option.some.injEq] at hsome
    subst hsome
    exact ⟨_, rfl, rfl⟩

end NodeList
