/-
# The wakeup of a slot

What an operand of a slot is worth so far is a word or nothing yet.  A slot keeps
it (`Right`) if the operand is ready exactly when there is a word, and then holds
it.  A broadcast of the operand's tag supplies the word to one that has none; so a
slot has to take the broadcast in if the operand is not ready, and to ignore it if
it is.

The wakeup loop ignores it by another rule: `ready_q[k] != 1` compares the vector
of all the slots' bits with the number 1, which it is when slot 0 is ready and no
other slot is.  `Sound` says that the two rules agree, for one broadcast at its
point of the loop, and a loop all of whose broadcasts are sound keeps every slot
right (`right_negedge`).
-/

import OooProcessor.Rtl.Issue

namespace OooProcessor
namespace Issue

open Lib

/-- EXE takes operand `k` from the slot: all but store data that is not there. -/
def isOperand {w : ℕ} (info : BitVec w) : Fin 3 → Bool
  | 0 => true
  | 1 => true
  | 2 => !noStoreData info

/-- The slot keeps what its operands are worth. -/
def Right (worth : Fin 3 → Option Word) (c : Slot) : Prop :=
  ∀ k, isOperand c.info k = true → worth k = if c.ready k then some (c.operand k) else none

/-- The broadcasts of a falling edge, EXE's first. -/
def broadcasts (u : Wakeup) : List (BitVec 6 × Word) :=
  if u.flush then []
  else (if u.exeBroadcast then [(u.exeBroadcastMap, u.exeBroadcastVal)] else []) ++
    if u.memBroadcast then [(u.memBroadcastMap, u.memBroadcastVal)] else []

/-- The operands of slot `x` that ignore a broadcast of `map` are those that are
ready. -/
def Sound (queue : Fin 16 → Slot) (map : BitVec 6) (x : Fin 16) : Prop :=
  ∀ k, isOperand (queue x).info k = true → tag (queue x).info k = map → map ≠ 0 →
    isOne (readyQ queue k) = (queue x).ready k

/-- **When a falling edge treats its broadcasts as it should**: a stalled one
passes over no operand that waits, and the others are ignored where they are to be
ignored. -/
structure Clean (u : Wakeup) (s : State) : Prop where
  stalled : u.stall = true → ∀ x, (s.queue x).empty = false → ∀ p ∈ broadcasts u, ∀ k,
    isOperand (s.queue x).info k = true → tag (s.queue x).info k = p.1 →
      (s.queue x).ready k = true
  exe : u.flush = false → u.stall = false → u.exeBroadcast = true → ∀ x,
    (s.queue x).empty = false →
      Sound (visit (listen u) (permitted u s) x) u.exeBroadcastMap x
  mem : u.flush = false → u.stall = false → u.memBroadcast = true → ∀ x,
    (s.queue x).empty = false →
      Sound (hearExe u (visit (listen u) (permitted u s) x) x) u.memBroadcastMap x

section Hear

variable {queue : Fin 16 → Slot} {map : BitVec 6} {val : Word} {x : Fin 16} {u : Wakeup}
  {worth : Fin 3 → Option Word}

/-- What a broadcast of `map` supplies to operand `k` of a slot. -/
def supplies (info : BitVec 138) (map : BitVec 6) (val : Word) (k : Fin 3) : Option Word :=
  if tag info k = map then some val else none

theorem local_hear (map : BitVec 6) (val : Word) : Local (hear map val) :=
  fun queue _ _ hj => Function.update_of_ne hj _ queue

theorem local_listen (u : Wakeup) : Local (listen u) := by
  intro queue x j hj
  unfold listen hearMem hearExe
  split_ifs
  · rw [local_hear _ _ _ _ _ hj, local_hear _ _ _ _ _ hj]
  · rw [local_hear _ _ _ _ _ hj]
  · rw [local_hear _ _ _ _ _ hj]
  · rfl

@[simp] theorem info_hear : (hear map val queue x x).info = (queue x).info := by simp [hear]

@[simp] theorem empty_hear : (hear map val queue x x).empty = (queue x).empty := by simp [hear]

@[simp] theorem info_hearExe : (hearExe u queue x x).info = (queue x).info := by
  unfold hearExe
  split_ifs <;> simp

@[simp] theorem empty_hearExe : (hearExe u queue x x).empty = (queue x).empty := by
  unfold hearExe
  split_ifs <;> simp

/-- An operand of register 0, or an immediate, needs no broadcast. -/
def Settled (worth : Fin 3 → Option Word) (c : Slot) : Prop :=
  ∀ k, isOperand c.info k = true → tag c.info k = 0 → worth k ≠ none

/-- **One broadcast at one slot.** -/
theorem right_hear (val : Word) (h : Right worth (queue x)) (h0 : Settled worth (queue x))
    (hs : Sound queue map x) :
    Right (fun k => (worth k).or (supplies (queue x).info map val k)) (hear map val queue x x) := by
  intro k hk
  rw [info_hear] at hk
  have hworth := h k hk
  have hoperand : (hear map val queue x x).operand k =
      if tag (queue x).info k == map && tag (queue x).info k != 0 && !isOne (readyQ queue k) then
        val
      else (queue x).operand k := by simp [hear]
  have hready : (hear map val queue x x).ready k =
      if tag (queue x).info k == map then true else (queue x).ready k := by simp [hear]
  show (worth k).or (supplies (queue x).info map val k) = _
  rw [hoperand, hready]
  by_cases htag : tag (queue x).info k = map
  · have hbeq : (tag (queue x).info k == map) = true := beq_iff_eq.mpr htag
    rw [hbeq, Bool.true_and, if_pos rfl, if_pos rfl, supplies, if_pos htag]
    by_cases hzero : map = 0
    · have hno : (tag (queue x).info k != 0) = false := by rw [htag, hzero]; rfl
      rw [hno, Bool.false_and, if_neg Bool.false_ne_true]
      cases hr : (queue x).ready k with
      | false => exact absurd (by rw [hworth, hr]; rfl) (h0 k hk (htag.trans hzero))
      | true => rw [hworth, hr, if_pos rfl, Option.or_some]; rfl
    · have hyes : (tag (queue x).info k != 0) = true := by
        rw [htag]
        exact bne_iff_ne.mpr hzero
      rw [hyes, Bool.true_and, hs k hk htag hzero, hworth]
      cases (queue x).ready k <;> rfl
  · have hbeq : (tag (queue x).info k == map) = false := beq_eq_false_iff_ne.mpr htag
    rw [hbeq, Bool.false_and, Bool.false_and, if_neg Bool.false_ne_true,
      if_neg Bool.false_ne_true, supplies, if_neg htag, Option.or_none, hworth]

/-- A slot that meets a broadcast if there is one. -/
theorem right_meet (val : Word) (h : Right worth (queue x)) (h0 : Settled worth (queue x))
    {b : Bool} (hs : b = true → Sound queue map x) :
    Right (fun k => (worth k).or (if b then supplies (queue x).info map val k else none))
      ((if b then hear map val queue x else queue) x) := by
  cases b with
  | false => simpa using h
  | true => simpa using right_hear val h h0 (hs rfl)

theorem Settled.or (h : Settled worth (queue x)) (more : Fin 3 → Option Word) :
    Settled (fun k => (worth k).or (more k)) (queue x) := by
  intro k hk ht hnone
  exact h k hk ht (Option.or_eq_none_iff.mp hnone).1

theorem Settled.congr {c c' : Slot} (h : Settled worth c) (hinfo : c'.info = c.info) :
    Settled worth c' := by
  intro k hk ht
  rw [hinfo] at hk ht
  exact h k hk ht

theorem Right.congr {c c' : Slot} (h : Right worth c) (hinfo : c'.info = c.info)
    (hoperand : c'.operand = c.operand) (hready : c'.ready = c.ready) : Right worth c' := by
  intro k hk
  rw [hinfo] at hk
  rw [hoperand, hready]
  exact h k hk

/-- What a falling edge without flush supplies to an operand, EXE's broadcast
first. -/
theorem lookup_broadcasts (hf : u.flush = false) (info : BitVec 138) (k : Fin 3) :
    (broadcasts u).lookup (tag info k) =
      (if u.exeBroadcast then supplies info u.exeBroadcastMap u.exeBroadcastVal k else none).or
        (if u.memBroadcast then supplies info u.memBroadcastMap u.memBroadcastVal k
          else none) := by
  have hone : ∀ (b : Bool) (map : BitVec 6) (val : Word),
      (if b then [(map, val)] else []).lookup (tag info k) =
        if b then supplies info map val k else none := by
    intro b map val
    cases b with
    | false => rfl
    | true =>
      rw [if_pos rfl, if_pos rfl, List.lookup_cons, supplies]
      by_cases ht : tag info k = map
      · rw [if_pos ht, beq_iff_eq.mpr ht]
      · rw [if_neg ht, beq_eq_false_iff_ne.mpr ht]
        rfl
  rw [broadcasts, hf, if_neg Bool.false_ne_true, List.lookup_append, hone, hone]

/-- **One turn of the loop.** -/
theorem right_listen (h : Right worth (queue x)) (h0 : Settled worth (queue x))
    (hocc : (queue x).empty = false) (hf : u.flush = false)
    (hexe : u.exeBroadcast = true → Sound queue u.exeBroadcastMap x)
    (hmem : u.memBroadcast = true → Sound (hearExe u queue x) u.memBroadcastMap x) :
    Right (fun k => (worth k).or ((broadcasts u).lookup (tag (queue x).info k)))
      (listen u queue x x) := by
  have hexe' : hearExe u queue x =
      if u.exeBroadcast then hear u.exeBroadcastMap u.exeBroadcastVal queue x else queue := by
    rw [hearExe, hocc, Bool.not_false, Bool.true_and]
  have hmem' : listen u queue x = if u.memBroadcast then
      hear u.memBroadcastMap u.memBroadcastVal (hearExe u queue x) x else hearExe u queue x := by
    rw [listen, hearMem, empty_hearExe, hocc, Bool.not_false, Bool.true_and]
  have h1 := right_meet u.exeBroadcastVal h h0 hexe
  rw [← hexe'] at h1
  have h0' := (h0.or fun k => if u.exeBroadcast then
    supplies (queue x).info u.exeBroadcastMap u.exeBroadcastVal k else none).congr
      (info_hearExe (u := u))
  have h2 := right_meet u.memBroadcastVal h1 h0' hmem
  rw [← hmem', info_hearExe] at h2
  intro k hk
  show (worth k).or ((broadcasts u).lookup (tag (queue x).info k)) = _
  rw [lookup_broadcasts hf, ← Option.or_assoc]
  exact h2 k hk

end Hear

section Negedge

variable {i : Inputs} {s : State} {x : Fin 16} {worth : Fin 3 → Option Word}

/-- One turn of the loop moves no instruction. -/
theorem listen_fixed (u : Wakeup) (queue : Fin 16 → Slot) (x : Fin 16) :
    (listen u queue x x).info = (queue x).info ∧ (listen u queue x x).empty = (queue x).empty := by
  unfold listen hearMem
  split_ifs
  · exact ⟨info_hear.trans info_hearExe, empty_hear.trans empty_hearExe⟩
  · exact ⟨info_hearExe, empty_hearExe⟩

/-- An empty slot hears nothing. -/
theorem listen_of_empty {u : Wakeup} {queue : Fin 16 → Slot} (h : (queue x).empty = true) :
    listen u queue x x = queue x := by
  have hexe : hearExe u queue x = queue := by
    rw [hearExe, h, Bool.not_true, Bool.false_and, if_neg Bool.false_ne_true]
  rw [listen, hexe, hearMem, h, Bool.not_true, Bool.false_and, if_neg Bool.false_ne_true]

/-- The four ways through a falling edge. -/
theorem negedge_cases (i : Inputs) (s : State) (x : Fin 16) :
    (i.wakeup.flush = true ∧ (negedge i s).queue x = s.queue x) ∨
    (i.wakeup.stall = true ∧ (negedge i s).queue x = s.queue x) ∨
    (broadcasts i.wakeup = [] ∧ (negedge i s).queue x = permit i.wakeup (s.queue x)) ∨
    (i.wakeup.flush = false ∧ i.wakeup.stall = false ∧ (negedge i s).queue x =
      listen i.wakeup (visit (listen i.wakeup) (permitted i.wakeup s) x) x x) := by
  cases hf : i.wakeup.flush with
  | true => exact .inl ⟨rfl, by simp [negedge, hf]⟩
  | false =>
    cases hs : i.wakeup.stall with
    | true => exact .inr (.inl ⟨rfl, by simp [negedge, hs]⟩)
    | false =>
      cases hb : i.wakeup.exeBroadcast || i.wakeup.memBroadcast with
      | false =>
        obtain ⟨he, hm⟩ := Bool.or_eq_false_iff.mp hb
        refine .inr (.inr (.inl ⟨by simp [broadcasts, he, hm], ?_⟩))
        simp [negedge, hf, hs, he, hm, permitted]
      | true =>
        refine .inr (.inr (.inr ⟨rfl, rfl, ?_⟩))
        rw [← sweep_apply (local_listen i.wakeup), negedge]
        simp [hf, hs, hb]

/-- A falling edge fills and empties no slot, and moves no instruction. -/
theorem negedge_fixed (i : Inputs) (s : State) (x : Fin 16) :
    ((negedge i s).queue x).info = (s.queue x).info ∧
      ((negedge i s).queue x).empty = (s.queue x).empty := by
  rcases negedge_cases i s x with ⟨-, h⟩ | ⟨-, h⟩ | ⟨-, h⟩ | ⟨-, -, h⟩
  · rw [h]; exact ⟨rfl, rfl⟩
  · rw [h]; exact ⟨rfl, rfl⟩
  · rw [h]; exact ⟨rfl, rfl⟩
  · rw [h, (listen_fixed ..).1, (listen_fixed ..).2, visit_self (local_listen i.wakeup)]
    exact ⟨rfl, rfl⟩

/-- An empty slot stays as it is, up to its permission. -/
theorem ready_negedge_of_empty (h : (s.queue x).empty = true) :
    ((negedge i s).queue x).ready = (s.queue x).ready := by
  rcases negedge_cases i s x with ⟨-, hx⟩ | ⟨-, hx⟩ | ⟨-, hx⟩ | ⟨-, -, hx⟩
  · rw [hx]
  · rw [hx]
  · rw [hx]; rfl
  · have hself := visit_self (local_listen i.wakeup) (permitted i.wakeup s) x
    have hempty : (visit (listen i.wakeup) (permitted i.wakeup s) x x).empty = true := by
      rw [hself]
      exact h
    rw [hx, listen_of_empty hempty, hself]
    rfl

/-- A stalled edge supplies nothing that an operand waits for. -/
theorem right_stalled {u : Wakeup} (h : Right worth (s.queue x))
    (hocc : (s.queue x).empty = false) (hs : u.stall = true) (hclean : Clean u s) :
    Right (fun k => (worth k).or ((broadcasts u).lookup (tag (s.queue x).info k)))
      (s.queue x) := by
  intro k hk
  have hworth := h k hk
  cases hr : (s.queue x).ready k with
  | true =>
    rw [hr, if_pos rfl] at hworth
    simp [hworth]
  | false =>
    have hnone : (broadcasts u).lookup (tag (s.queue x).info k) = none := by
      rw [List.lookup_eq_none_iff]
      rintro p hp
      rw [bne_iff_ne]
      intro htag
      have hready := hclean.stalled hs x hocc p hp k hk htag
      rw [hr] at hready
      exact Bool.false_ne_true hready
    rw [hr, if_neg Bool.false_ne_true] at hworth
    simp [hworth, hnone]

/-- **A clean falling edge keeps a slot right.** -/
theorem right_negedge (h : Right worth (s.queue x)) (h0 : Settled worth (s.queue x))
    (hocc : (s.queue x).empty = false) (hclean : Clean i.wakeup s) :
    Right (fun k => (worth k).or ((broadcasts i.wakeup).lookup (tag (s.queue x).info k)))
      ((negedge i s).queue x) := by
  rcases negedge_cases i s x with ⟨hf, hx⟩ | ⟨hs, hx⟩ | ⟨hb, hx⟩ | ⟨hf, hs, hx⟩
  · have hb : broadcasts i.wakeup = [] := if_pos hf
    rw [hx, hb]
    simpa using h
  · rw [hx]
    exact right_stalled h hocc hs hclean
  · rw [hx, hb]
    have hpermit : Right worth (permit i.wakeup (s.queue x)) := h.congr rfl rfl rfl
    simpa using hpermit
  · have hself := visit_self (local_listen i.wakeup) (permitted i.wakeup s) x
    have hinfo : (visit (listen i.wakeup) (permitted i.wakeup s) x x).info = (s.queue x).info := by
      rw [hself]
      rfl
    have hright : Right worth (visit (listen i.wakeup) (permitted i.wakeup s) x x) := by
      rw [hself]
      exact h.congr rfl rfl rfl
    have hocc' : (visit (listen i.wakeup) (permitted i.wakeup s) x x).empty = false := by
      rw [hself]
      exact hocc
    have hturn := right_listen hright (h0.congr hinfo) hocc' hf
      (fun he => hclean.exe hf hs he x hocc) (fun hm => hclean.mem hf hs hm x hocc)
    rw [hinfo] at hturn
    rw [hx]
    exact hturn

end Negedge

end Issue
end OooProcessor
