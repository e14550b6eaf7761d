import HighCache.Lib.Execution
import Mathlib.Data.List.GetD
import Mathlib.Data.List.Nodup
import Mathlib.Order.Interval.Finset.Nat

/-!
# Byte memory, regions and intrusive lists

An allocator that keeps its free list inside the memory it hands out is about bytes: a link is
eight of them, and a caller may overwrite them as soon as the block is its own. The model is a
function from addresses to bytes with word-sized loads and stores on top.

Three things are developed here. Regions, with disjointness as one inequality of two and the fact
that disjoint regions below a bound cannot add up to more than it. Frame rules: a write changes
nothing outside the bytes it writes. And chains: the list of addresses met by following the word
stored at each one, up to address zero.
-/

/-- An address; `nullptr` is `0`. -/
abbrev Pointer := ℕ

/-- The contents of an address space. -/
abbrev Memory := ℕ → UInt8

namespace Memory

/-! ## Bytes -/

/-- Write bytes from an address on. -/
def write (m : Memory) (p : ℕ) (bytes : List UInt8) : Memory := fun a ↦
  if p ≤ a then bytes.getD (a - p) (m a) else m a

/-- Read `n` bytes from an address on. -/
def read (m : Memory) (p n : ℕ) : List UInt8 := (List.range n).map fun i ↦ m (p + i)

@[simp] theorem length_read (m : Memory) (p n : ℕ) : (m.read p n).length = n := by
  rw [read, List.length_map, List.length_range]

/-! ### Reading what was written -/

/-- **The frame rule**: a write changes nothing outside its bytes. -/
theorem write_apply_of_outside (m : Memory) {p a : ℕ} {bytes : List UInt8}
    (h : a < p ∨ p + bytes.length ≤ a) : m.write p bytes a = m a := by
  rw [write]
  split
  · exact List.getD_eq_default _ _ (by omega)
  · rfl

theorem write_apply_of_inside (m : Memory) {p i : ℕ} {bytes : List UInt8} (h : i < bytes.length) :
    m.write p bytes (p + i) = bytes[i] := by
  rw [write, if_pos (Nat.le_add_right p i), Nat.add_sub_cancel_left, List.getD_eq_getElem _ _ h]

theorem read_write (m : Memory) (p : ℕ) (bytes : List UInt8) :
    (m.write p bytes).read p bytes.length = bytes := by
  refine List.ext_getElem (length_read _ _ _) fun i h₁ h₂ ↦ ?_
  simp only [read, List.getElem_map, List.getElem_range]
  exact m.write_apply_of_inside h₂

/-- Two memories that agree on some bytes read alike there. -/
theorem read_congr {m m' : Memory} {p n : ℕ} (h : ∀ i < n, m' (p + i) = m (p + i)) :
    m'.read p n = m.read p n :=
  List.map_congr_left fun i hi ↦ h i (List.mem_range.mp hi)

/-! ## Words -/

/-- The number of bytes in a word. -/
abbrev wordBytes : ℕ := 8

/-- The bytes of a word, lowest first. -/
def encodeWord (v : ℕ) : List UInt8 := (List.range wordBytes).map fun i ↦ UInt8.ofNat (v / 256 ^ i)

/-- The word with some bytes. -/
def decodeWord (bytes : List UInt8) : ℕ := bytes.foldr (fun b v ↦ b.toNat + 256 * v) 0

/-- Store a word. -/
def storeWord (m : Memory) (p v : ℕ) : Memory := m.write p (encodeWord v)

/-- Load a word. -/
def loadWord (m : Memory) (p : ℕ) : ℕ := decodeWord (m.read p wordBytes)

@[simp] theorem length_encodeWord (v : ℕ) : (encodeWord v).length = wordBytes := by
  rw [encodeWord, List.length_map, List.length_range]

theorem decode_encodeWord {v : ℕ} (h : v < Checked.wordSize) : decodeWord (encodeWord v) = v := by
  rw [Checked.wordSize] at h
  simp only [decodeWord, encodeWord, List.range, List.range.loop, List.map_cons,
    List.map_nil, List.foldr_cons, List.foldr_nil, UInt8.toNat_ofNat', Nat.reducePow]
  omega

theorem loadWord_storeWord (m : Memory) (p : ℕ) {v : ℕ} (h : v < Checked.wordSize) :
    (m.storeWord p v).loadWord p = v := by
  have hread := m.read_write p (encodeWord v)
  rw [length_encodeWord] at hread
  rw [loadWord, storeWord, hread, decode_encodeWord h]

theorem storeWord_apply_of_outside (m : Memory) {p v a : ℕ} (h : a < p ∨ p + wordBytes ≤ a) :
    m.storeWord p v a = m a :=
  m.write_apply_of_outside (by rwa [length_encodeWord])

theorem loadWord_congr {m m' : Memory} {p : ℕ} (h : ∀ i < wordBytes, m' (p + i) = m (p + i)) :
    m'.loadWord p = m.loadWord p := by
  rw [loadWord, loadWord, read_congr h]

end Memory

/-! ## Regions

Two regions are apart if one ends before the other begins. This is stronger than having no address
in common, since an empty region is not apart from one around it; for regions that are not empty the
two agree, and the inequality is what arithmetic can use. -/

/-- The addresses from `base` up to `base + size`. -/
structure Region where
  base : ℕ
  size : ℕ
  deriving DecidableEq, Repr

namespace Region

/-- No address is in both. -/
def Apart (r s : Region) : Prop := r.base + r.size ≤ s.base ∨ s.base + s.size ≤ r.base

/-- Every address of `r` is one of `s`. -/
def Within (r s : Region) : Prop := s.base ≤ r.base ∧ r.base + r.size ≤ s.base + s.size

instance (r s : Region) : Decidable (r.Apart s) :=
  inferInstanceAs (Decidable (_ ∨ _))

instance (r s : Region) : Decidable (r.Within s) :=
  inferInstanceAs (Decidable (_ ∧ _))

theorem Apart.symm {r s : Region} (h : r.Apart s) : s.Apart r := Or.symm h

instance : Std.Symm Apart := ⟨fun _ _ ↦ Apart.symm⟩

theorem pairwise_apart_of_perm {rs rs' : List Region} (h : rs.Perm rs')
    (hapart : rs.Pairwise Apart) : rs'.Pairwise Apart :=
  h.pairwise hapart Apart.symm

theorem Apart.within {r s r' s' : Region} (h : r.Apart s) (hr : r'.Within r)
    (hs : s'.Within s) : r'.Apart s' := by
  unfold Apart Within at *
  omega

/-! ### How many regions there can be -/

/-- The addresses of some regions. -/
def addresses : List Region → Finset ℕ
  | [] => ∅
  | r :: rs => Finset.Ico r.base (r.base + r.size) ∪ addresses rs

theorem mem_addresses {rs : List Region} {a : ℕ} :
    a ∈ addresses rs ↔ ∃ r ∈ rs, r.base ≤ a ∧ a < r.base + r.size := by
  induction rs with
  | nil => simp [addresses]
  | cons r rs ih => rw [addresses, Finset.mem_union, Finset.mem_Ico, ih, List.exists_mem_cons_iff]

theorem card_addresses {rs : List Region} (h : rs.Pairwise Apart) :
    (addresses rs).card = (rs.map Region.size).sum := by
  induction rs with
  | nil => rfl
  | cons r rs ih =>
    rw [List.pairwise_cons] at h
    have hdisj : Disjoint (Finset.Ico r.base (r.base + r.size)) (addresses rs) := by
      rw [Finset.disjoint_left]
      intro a ha ha'
      obtain ⟨s, hs, hlow, hhigh⟩ := mem_addresses.mp ha'
      rw [Finset.mem_Ico] at ha
      have := h.1 s hs
      unfold Apart at this
      omega
    rw [addresses, Finset.card_union_of_disjoint hdisj, ih h.2, Nat.card_Ico, List.map_cons,
      List.sum_cons]
    omega

/-- Disjoint regions between address zero and a bound add up to less than the bound. -/
theorem sum_size_lt {rs : List Region} {bound : ℕ} (hbound : 0 < bound)
    (h : rs.Pairwise Apart) (hin : ∀ r ∈ rs, 0 < r.base ∧ r.base + r.size ≤ bound) :
    (rs.map Region.size).sum < bound := by
  have hsub : addresses rs ⊆ Finset.Ico 1 bound := by
    intro a ha
    obtain ⟨r, hr, hlow, hhigh⟩ := mem_addresses.mp ha
    have := hin r hr
    rw [Finset.mem_Ico]
    omega
  have hcard := Finset.card_le_card hsub
  rw [card_addresses h, Nat.card_Ico] at hcard
  omega

end Region

/-! ## Chains

A free list that lives in the memory it manages. The predicate says which addresses the walk meets,
in order; that it ends is part of it, so a chain has no cycle. -/

/-- The addresses met by following stored words from `p` until address zero. -/
inductive Chain (m : Memory) : ℕ → List ℕ → Prop where
  | nil : Chain m 0 []
  | cons {p : ℕ} {ps : List ℕ} (hp : p ≠ 0) (hnext : Chain m (m.loadWord p) ps) :
      Chain m p (p :: ps)

namespace Chain

variable {m m' : Memory}

/-- The first address of a chain is its head, and the rest follows from the word stored there. -/
theorem tail {p q : ℕ} {ps : List ℕ} (h : Chain m p (q :: ps)) :
    p = q ∧ q ≠ 0 ∧ Chain m (m.loadWord q) ps := by
  cases h with
  | cons hp hnext => exact ⟨rfl, hp, hnext⟩

/-- A chain survives every change outside its links. -/
theorem congr {p : ℕ} {ps : List ℕ} (h : Chain m p ps)
    (hsame : ∀ q ∈ ps, ∀ i < Memory.wordBytes, m' (q + i) = m (q + i)) : Chain m' p ps := by
  induction h with
  | nil => exact .nil
  | cons hp _ ih =>
    refine .cons hp ?_
    rw [Memory.loadWord_congr (hsame _ List.mem_cons_self)]
    exact ih fun q hq ↦ hsame q (List.mem_cons_of_mem _ hq)

/-- Storing the old head in a new link puts it in front. -/
theorem push {p q : ℕ} {ps : List ℕ} (h : Chain m p ps) (hp : p < Checked.wordSize) (hq : q ≠ 0)
    (hapart : ∀ r ∈ ps, Region.Apart ⟨q, Memory.wordBytes⟩ ⟨r, Memory.wordBytes⟩) :
    Chain (m.storeWord q p) q (q :: ps) := by
  refine .cons hq ?_
  rw [m.loadWord_storeWord q hp]
  refine h.congr fun r hr i hi ↦ m.storeWord_apply_of_outside ?_
  have := hapart r hr
  unfold Region.Apart at this
  dsimp only at this
  omega

theorem head_eq {p : ℕ} {ps : List ℕ} (h : Chain m p ps) : p = ps.head?.getD 0 := by
  cases h with
  | nil => rfl
  | cons _ _ => rfl

end Chain
