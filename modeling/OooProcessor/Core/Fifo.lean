/-
# QUEUE_obj as a queue

What the circular array of `QUEUE_obj` holds, read from `head` for `size` cells,
is a list (`contents`).  Without a flush a rising edge drops its first entry where
`deque` is honoured and appends one where `enque` is (`contents_advance`).  For an
instance that starts empty the appended entry is `enque_data`.  For the free list
it is not always: its write index runs to `LENGTH`, one past the array, when
`tail` stands at the last cell, and then the entry left in cell 0 comes back
instead (`entering`).

A flush empties the one kind and refills the other with the physical registers
outside `r_mapping`, in order, up to `LENGTH` of them (`contents_flushed`).
-/

import OooProcessor.Lib.Missing
import OooProcessor.Rtl.QueueObj

namespace OooProcessor
namespace QueueObj

open Lib

variable {α : Type*} {P : Params α} {i : Inputs α} {s : State α}

/-- The entries from `head` on, in order. -/
def contents (P : Params α) (s : State α) : List α := window P.length s.queue s.head s.size

/-- The indices stay in range, and the next write is meant for the cell past the
contents. -/
structure WellFormed (P : Params α) (s : State α) : Prop where
  head_lt : s.head < P.length
  tail_lt : s.tail < P.length
  size_le : s.size ≤ P.length
  tail_eq : (if P.init then next P.length s.tail else s.tail) = (s.head + s.size) % P.length

/-- The entry an enqueue appends. -/
def entering (P : Params α) (i : Inputs α) (s : State α) : α :=
  if P.init ∧ s.tail = P.length - 1 then s.queue 0 else i.enqueData

@[simp] theorem length_contents : (contents P s).length = s.size := length_window

theorem wellFormed_reset (hL : 0 < P.length) : WellFormed P (reset P) := by
  unfold reset
  cases hP : P.init with
  | false => exact ⟨hL, hL, Nat.zero_le _, by simp [hP]⟩
  | true => exact ⟨hL, by simp; omega, le_rfl, by simp [hP, next]⟩

theorem wellFormed_flushed (hL : 0 < P.length) : WellFormed P (flushed P i s) := by
  unfold flushed
  cases hP : P.init with
  | false => exact ⟨hL, hL, Nat.zero_le _, by simp [hP]⟩
  | true => exact ⟨hL, by simp; omega, le_rfl, by simp [hP, next]⟩

/-- An enqueue needs room. -/
theorem lt_of_enqueues (h : enqueues P i s = true) : s.size < P.length := by
  unfold enqueues at h
  cases hP : P.init <;> simp [hP] at h <;> exact h.2

theorem pos_of_dequeues (h : dequeues i s = true) : 0 < s.size := by
  simp [dequeues] at h
  exact h.2

/-- The size counts what is taken and what is put in. -/
theorem size_advance : (advance P i s).size + (dequeues i s).toNat =
    s.size + (enqueues P i s).toNat := by
  simp only [advance]
  cases hd : dequeues i s with
  | false => cases enqueues P i s <;> simp
  | true =>
    have hpos := pos_of_dequeues hd
    cases enqueues P i s with
    | false => simp; omega
    | true => simp

/-- The head moves on by one where `deque` is honoured. -/
theorem head_advance (h : WellFormed P s) : (advance P i s).head % P.length =
    (s.head + (dequeues i s).toNat) % P.length := by
  simp only [advance]
  split_ifs with hd
  · rw [hd, next_eq_mod h.head_lt, Nat.mod_mod]
    rfl
  · simp [hd]

/-- The cell past the contents moves on by one where `enque` is honoured. -/
theorem past_advance (h : WellFormed P s) :
    ((advance P i s).head + (advance P i s).size) % P.length =
      (s.head + s.size + (enqueues P i s).toNat) % P.length := by
  rw [Nat.add_mod, head_advance h, ← Nat.add_mod]
  congr 1
  have hsize := size_advance (P := P) (i := i) (s := s)
  omega

theorem size_advance_le (h : WellFormed P s) : (advance P i s).size ≤ P.length := by
  have hle := h.size_le
  have hsize := size_advance (P := P) (i := i) (s := s)
  cases he : enqueues P i s with
  | false =>
    rw [he, Bool.toNat_false] at hsize
    omega
  | true =>
    have hlt := lt_of_enqueues he
    rw [he, Bool.toNat_true] at hsize
    omega

theorem wellFormed_advance (h : WellFormed P s) : WellFormed P (advance P i s) := by
  have hL : 0 < P.length := Nat.lt_of_le_of_lt (Nat.zero_le _) h.head_lt
  refine ⟨?_, ?_, size_advance_le h, ?_⟩
  · simp only [advance]
    split_ifs
    · exact next_lt hL _
    · exact h.head_lt
  · simp only [advance]
    split_ifs
    · exact next_lt hL _
    · exact h.tail_lt
  · have htail := h.tail_eq
    rw [past_advance h]
    cases he : enqueues P i s with
    | false => simpa [advance, he] using htail
    | true =>
      have hnext : next P.length ((s.head + s.size) % P.length) =
          (s.head + s.size + 1) % P.length := by
        rw [next_eq_mod (Nat.mod_lt _ hL), Nat.mod_add_mod]
      simp only [advance, he, if_true, Bool.toNat_true, ← hnext, ← htail]
      cases hP : P.init with
      | false => simp
      | true => simp

theorem wellFormed_posedge (h : WellFormed P s) : WellFormed P (posedge P i s) := by
  have hL : 0 < P.length := Nat.lt_of_le_of_lt (Nat.zero_le _) h.head_lt
  unfold posedge
  split_ifs
  · exact wellFormed_flushed hL
  · exact wellFormed_advance h

section Advance

/-- The cell an enqueue is meant for lies outside the contents. -/
theorem ne_of_lt_size (hsize : s.size < P.length) {k : ℕ} (hk : k < s.size) :
    (s.head + k) % P.length ≠ (s.head + s.size) % P.length := by
  intro heq
  have := Nat.ModEq.add_left_cancel' s.head heq
  rw [Nat.ModEq, Nat.mod_eq_of_lt (by omega), Nat.mod_eq_of_lt hsize] at this
  omega

/-- The write index is the cell past the contents, or outside the array. -/
theorem writeIndex_cases (h : WellFormed P s) (hP : P.init = true → P.length < 64) :
    (¬(P.init ∧ s.tail = P.length - 1) ∧
        writeIndex P s = (s.head + s.size) % P.length) ∨
      (P.init ∧ s.tail = P.length - 1 ∧ writeIndex P s = P.length ∧
        (s.head + s.size) % P.length = 0) := by
  have htail := h.tail_eq
  have hlt := h.tail_lt
  cases hinit : P.init with
  | false =>
    refine .inl ⟨by simp, ?_⟩
    simpa [writeIndex, hinit] using htail
  | true =>
    have hlen := hP hinit
    simp only [hinit, if_true] at htail
    have hmod : writeIndex P s = s.tail + 1 := by
      simp only [writeIndex, hinit, if_true]
      exact Nat.mod_eq_of_lt (by omega)
    by_cases hlast : s.tail = P.length - 1
    · refine .inr ⟨rfl, hlast, by omega, ?_⟩
      rw [← htail, next, if_neg (by omega)]
    · refine .inl ⟨by simp [hlast], ?_⟩
      rw [hmod, ← htail, next, if_pos (by omega)]

/-- The write of an edge leaves the contents alone. -/
theorem window_queue_advance (h : WellFormed P s) (hP : P.init = true → P.length < 64) :
    window P.length (advance P i s).queue s.head s.size = contents P s := by
  cases he : enqueues P i s with
  | false => simp [advance, he, contents]
  | true =>
    have hsize := lt_of_enqueues he
    rcases writeIndex_cases h hP with ⟨-, hidx⟩ | ⟨-, -, hidx, -⟩
    · simp only [advance, he, if_true, hidx]
      exact window_writeAt_of_forall_ne (fun k hk => ne_of_lt_size hsize hk) _
    · simp only [advance, he, if_true, hidx, writeAt_of_le le_rfl]
      rfl

/-- What stands in the cell past the contents after an enqueue. -/
theorem queue_advance_entering (h : WellFormed P s) (hP : P.init = true → P.length < 64)
    (he : enqueues P i s = true) :
    (advance P i s).queue ((s.head + s.size) % P.length) = entering P i s := by
  have hL : 0 < P.length := Nat.lt_of_le_of_lt (Nat.zero_le _) h.head_lt
  unfold entering
  rcases writeIndex_cases h hP with ⟨hno, hidx⟩ | ⟨hinit, hlast, hidx, hzero⟩
  · simp only [advance, he, if_true, hidx, if_neg hno]
    exact writeAt_apply_self (Nat.mod_lt _ hL) _
  · simp only [advance, he, hidx, writeAt_of_le le_rfl, hzero, if_pos, hinit, hlast, and_self]

/-- **One edge of the queue.**  The first entry goes where `deque` is honoured,
and one is appended where `enque` is. -/
theorem contents_advance (h : WellFormed P s) (hP : P.init = true → P.length < 64) :
    contents P (advance P i s) =
      (contents P s).drop (dequeues i s).toNat ++
        (if enqueues P i s then [entering P i s] else []) := by
  have hgrown : window P.length (advance P i s).queue s.head (s.size + (enqueues P i s).toNat) =
      contents P s ++ (if enqueues P i s then [entering P i s] else []) := by
    cases he : enqueues P i s with
    | false => simpa using window_queue_advance h hP
    | true =>
      simp only [Bool.toNat_true, if_true]
      rw [window_succ_right, window_queue_advance h hP, queue_advance_entering h hP he]
  have hsize : (advance P i s).size =
      s.size + (enqueues P i s).toNat - (dequeues i s).toNat :=
    Nat.eq_sub_of_add_eq size_advance
  cases hd : dequeues i s with
  | false =>
    have hhead : (advance P i s).head = s.head := by simp [advance, hd]
    rw [contents, hsize, hd, hhead]
    simpa using hgrown
  | true =>
    have hpos := pos_of_dequeues hd
    have hhead : (advance P i s).head = next P.length s.head := by simp [advance, hd]
    obtain ⟨k, hk⟩ : ∃ k, s.size + (enqueues P i s).toNat = k + 1 :=
      ⟨s.size + (enqueues P i s).toNat - 1, by omega⟩
    rw [hk, window_succ h.head_lt] at hgrown
    have htail : contents P (advance P i s) =
        window P.length (advance P i s).queue (next P.length s.head) k := by
      rw [contents, hsize, hd, hhead, hk]
      rfl
    have hdrop := congrArg (List.drop 1) hgrown
    rw [List.drop_append_of_le_length (by simp; omega)] at hdrop
    rw [htail]
    simpa using hdrop

/-- A dequeue takes the first of the contents. -/
theorem contents_eq_cons (h : WellFormed P s) (hd : dequeues i s = true) :
    contents P s = dequeData P i s :: (contents P s).drop 1 := by
  obtain ⟨k, hk⟩ := Nat.exists_eq_add_of_lt (pos_of_dequeues hd)
  rw [Nat.zero_add] at hk
  rw [contents, hk, window_succ h.head_lt]
  simp [dequeData, hd]

end Advance

section Plain

theorem halt_of_not_init (hinit : P.init = false) : halt P s = (s.size == P.length) := by
  simp [halt, hinit]

/-- A queue that starts empty takes what it is offered unless it is full. -/
theorem enqueues_of_not_init (hinit : P.init = false) (h : WellFormed P s)
    (hen : i.enque = true) : enqueues P i s = !halt P s := by
  have hle := h.size_le
  simp only [enqueues, hinit, hen, halt_of_not_init hinit, Bool.false_eq_true, if_false,
    Bool.true_and]
  by_cases hfull : s.size = P.length
  · simp [hfull]
  · have hlt : s.size < P.length := by omega
    have hne : (s.size == P.length) = false := beq_eq_false_iff_ne.mpr hfull
    rw [hne, decide_eq_true hlt]
    rfl

/-- **One edge of a queue that starts empty.** -/
theorem contents_posedge (hinit : P.init = false) (h : WellFormed P s)
    (hen : i.enque = true) (hf : i.flush = false) : contents P (posedge P i s) =
      (contents P s).drop (dequeues i s).toNat ++ if halt P s then [] else [i.enqueData] := by
  have hstep : posedge P i s = advance P i s := if_neg (by simp [hf])
  have hentering : entering P i s = i.enqueData := if_neg (by simp [hinit])
  have hP : P.init = true → P.length < 64 := by simp [hinit]
  rw [hstep, contents_advance h hP, enqueues_of_not_init hinit h hen, hentering]
  cases halt P s <;> rfl

/-- **A queue that gives an entry away, or has none, is not full afterwards.** -/
theorem not_halt_posedge (hinit : P.init = false) (h : WellFormed P s) (hL : 1 < P.length)
    (hen : i.enque = true) (hf : i.flush = false)
    (hroom : dequeues i s = true ∨ s.size = 0) : halt P (posedge P i s) = false := by
  have hlen := congrArg List.length (contents_posedge hinit h hen hf)
  rw [length_contents, List.length_append, List.length_drop, length_contents] at hlen
  have hle := h.size_le
  rw [halt_of_not_init hinit, beq_eq_false_iff_ne]
  cases hhalt : halt P s with
  | true =>
    have hfull : s.size = P.length := by
      rwa [halt_of_not_init hinit, beq_iff_eq] at hhalt
    rcases hroom with hd | hzero
    · rw [hhalt, hd, if_pos rfl, List.length_nil, Bool.toNat_true] at hlen
      omega
    · omega
  | false =>
    have hne : s.size ≠ P.length := by
      rwa [halt_of_not_init hinit, beq_eq_false_iff_ne] at hhalt
    rw [hhalt, if_neg Bool.false_ne_true, List.length_singleton] at hlen
    rcases hroom with hd | hzero
    · have hpos := pos_of_dequeues hd
      rw [hd, Bool.toNat_true] at hlen
      omega
    · omega

end Plain

section Flush

/-- The marks a sweep over some mappings leaves. -/
theorem foldl_temp (r : Reg → Tag) (p : Tag) (l : List Reg) (t : Tag → Bool) :
    l.foldl (fun t i => Function.update t (r i) false) t p = true ↔
      t p = true ∧ ∀ a ∈ l, r a ≠ p := by
  induction l generalizing t with
  | nil => simp
  | cons b l ih =>
    rw [List.foldl_cons, ih]
    by_cases hb : p = r b
    · subst hb
      simp
    · have hne : r b ≠ p := fun h => hb h.symm
      simp [Function.update_of_ne hb, hne]

/-- `temp` keeps the marks of the registers no architectural register is mapped
to. -/
theorem temp_eq_true {r : Reg → Tag} {p : Tag} : temp r p = true ↔ ∀ a, r a ≠ p := by
  rw [temp, foldl_temp]
  simp [List.mem_finRange]

theorem filter_temp (r : Reg → Tag) : (List.finRange 64).filter (temp r) = missing r := by
  refine List.filter_congr fun p _ => ?_
  rw [Bool.eq_iff_iff, temp_eq_true]
  simp

/-- The compaction writes the marked registers to consecutive cells, as far as
the array reaches. -/
theorem foldl_compact (t : Tag → Bool) : ∀ (l : List Tag) (q : ℕ → α) (j k : ℕ),
    k < P.length →
      (l.foldl (fun qj i =>
        if t i then (writeAt P.length qj.1 qj.2 (P.ofInt i), qj.2 + 1) else qj) (q, j)).1 k =
      if k < j then q k else (((l.filter t)[k - j]?).map fun p : Tag => P.ofInt p.val).getD (q k)
  | [], q, j, k, _ => by simp
  | p :: l, q, j, k, hk => by
    rw [List.foldl_cons]
    cases ht : t p with
    | false =>
      simp only [Bool.false_eq_true, if_false]
      rw [foldl_compact t l q j k hk, List.filter_cons_of_neg (by simp [ht])]
    | true =>
      simp only [if_true]
      rw [foldl_compact t l _ (j + 1) k hk, List.filter_cons_of_pos ht]
      rcases Nat.lt_trichotomy k j with h | rfl | h
      · rw [if_pos (by omega), if_pos h, writeAt_apply_of_ne (by omega)]
      · rw [if_pos (by omega), if_neg (by omega), writeAt_apply_self hk]
        simp
      · obtain ⟨d, rfl⟩ := Nat.exists_eq_add_of_lt h
        rw [if_neg (by omega), if_neg (by omega), writeAt_apply_of_ne (by omega),
          show j + d + 1 - j = d + 1 by omega, show j + d + 1 - (j + 1) = d by omega,
          List.getElem?_cons_succ]

/-- **A flush refills the free list** with the first registers that no
architectural register is mapped to. -/
theorem contents_flushed (hinit : P.init = true)
    (hlen : P.length ≤ (missing i.rMapping).length) :
    contents P (flushed P i s) =
      ((missing i.rMapping).take P.length).map fun p : Tag => P.ofInt p.val := by
  have hsize : (contents P (flushed P i s)).length = P.length := by simp [flushed, hinit]
  refine List.ext_getElem? fun k => ?_
  by_cases hk : k < P.length
  · have hcell : (flushed P i s).queue k = ((((missing i.rMapping))[k]?).map
        fun p : Tag => P.ofInt p.val).getD (s.queue k) := by
      simp only [flushed, hinit, if_true, compact]
      rw [foldl_compact _ _ _ _ _ hk, if_neg (by omega), filter_temp, Nat.sub_zero]
    have hlt : k < (missing i.rMapping).length := by omega
    have hhead : (flushed P i s).head = 0 := by simp [flushed, hinit]
    have hs : k < (flushed P i s).size := by simpa [flushed, hinit] using hk
    rw [contents, getElem?_window hs, hhead, Nat.zero_add, Nat.mod_eq_of_lt hk, hcell,
      List.getElem?_map, List.getElem?_take, if_pos hk, List.getElem?_eq_getElem hlt]
    rfl
  · rw [List.getElem?_eq_none (by omega), List.getElem?_eq_none (by simp; omega)]

/-- A flush empties a queue that starts empty. -/
theorem contents_flushed_of_not_init (hinit : P.init = false) :
    contents P (flushed P i s) = [] := by
  simp [flushed, hinit, contents]

end Flush

end QueueObj
end OooProcessor
