/-
# What Issue sends to EXE

An operand that is marked ready when its instruction is enqueued is worth what
Issue samples then, the physical register or the immediate; any other is worth what
the first broadcast of its tag carries (`expected`).  Every slot keeps that
(`kept`), so that what is sent to EXE is what is expected (`captures`), in every
run whose broadcasts meet `Clean`.

The condition fails in ordinary runs.  When slot 0 is the only slot whose first
operand is ready, `ready_q[0]` is the number 1, and an instruction in another slot
that waits for its first operand misses the broadcast it waits for: the bit is set
and the operand is the stale register (`not_captures_twoSlots`).
-/

import OooProcessor.Issue.Wakeup

namespace OooProcessor
namespace Issue

open Lib

/-- The word EXE is sent for operand `k`. -/
def Out.operand (o : Out) : Fin 3 → Word
  | 0 => o.operandA1
  | 1 => o.operandB1
  | 2 => o.memWriteData

/-- The slot an instruction is enqueued into on a rising edge, if one is. -/
def enqueues (i : Inputs) (s : State) : Option (Fin 16) :=
  if i.flush || i.stall then none else enqueSlot i s

variable (multReady : Fin 16 → Bool) (env : ℕ → State → Inputs)

/-- The state before the rising edge of cycle `n`. -/
abbrev run (n : ℕ) : State := (machine multReady).run env n

/-- The state of cycle `n` between its edges. -/
abbrev high (n : ℕ) : State := (machine multReady).high env n

/-- The inputs of cycle `n`. -/
abbrev input (n : ℕ) : Inputs := (machine multReady).input env n

/-- The cycle before cycle `n` in which slot `x` was filled last. -/
def enqueuedAt : ℕ → Fin 16 → ℕ
  | 0, _ => 0
  | n + 1, x =>
    if enqueues (input multReady env n) (run multReady env n) = some x then n else enqueuedAt n x

/-- The broadcasts of the cycles from `m` on and before `n`. -/
def heard (m : ℕ) : ℕ → List (BitVec 6 × Word)
  | 0 => []
  | n + 1 => if m ≤ n then heard m n ++ broadcasts (input multReady env n).wakeup else []

/-- What operand `k` of the instruction enqueued in cycle `m` is worth before
cycle `n`. -/
def expected (m n : ℕ) (k : Fin 3) : Option Word :=
  let i := input multReady env m
  if marked i k then some (sampled i k)
  else (heard multReady env m n).lookup (tag i.renameIssueinfo k)

/-- **What a cycle that sends an instruction to EXE is held to.** -/
def Captures (n : ℕ) : Prop :=
  ∀ x, sends (input multReady env n) (run multReady env n) = some x →
    ∀ k, isOperand (input multReady env (enqueuedAt multReady env n x)).renameIssueinfo k = true →
      expected multReady env (enqueuedAt multReady env n x) n k =
        some ((run multReady env (n + 1)).out.operand k)

section Kept

variable {multReady env} {n : ℕ}

/-- What is kept of the instructions enqueued in the cycles `filled x`: empty slots
ask for nothing, the others hold the instruction and what its operands are
worth. -/
structure Keeps (multReady : Fin 16 → Bool) (env : ℕ → State → Inputs) (filled : Fin 16 → ℕ)
    (n : ℕ) (s : State) : Prop where
  empty : ∀ x, (s.queue x).empty = true → ∀ k, (s.queue x).ready k = false
  info : ∀ x, (s.queue x).empty = false → (s.queue x).info =
    (input multReady env (filled x)).renameIssueinfo.extractLsb' 0 138
  right : ∀ x, (s.queue x).empty = false →
    Right (expected multReady env (filled x) n) (s.queue x)

theorem enqueuedAt_succ_le (n : ℕ) (x : Fin 16) : enqueuedAt multReady env (n + 1) x ≤ n := by
  induction n with
  | zero =>
    rw [enqueuedAt]
    split_ifs <;> exact le_rfl
  | succ n ih =>
    rw [enqueuedAt]
    split_ifs
    · exact le_rfl
    · exact Nat.le_succ_of_le ih

section Truncated

variable (info : BitVec 170)

/-- `issue_q` keeps the lower 138 bits. -/
theorem extract_truncated {start len : ℕ} (h : start + len ≤ 138) :
    (info.extractLsb' 0 138).extractLsb' start len = info.extractLsb' start len := by
  ext j hj
  have hlt : start + j < 138 := by omega
  simp [BitVec.getElem_extractLsb', hlt]

theorem tag_truncated (k : Fin 3) : tag (info.extractLsb' 0 138) k = tag info k := by
  fin_cases k
  · exact extract_truncated info (by decide)
  · exact extract_truncated info (by decide)
  · exact extract_truncated info (by decide)

theorem noStoreData_truncated : noStoreData (info.extractLsb' 0 138) = noStoreData info := by
  have htag : mapWr (info.extractLsb' 0 138) = mapWr info := tag_truncated info 2
  simp [noStoreData, htag, regDestFlag, linkFlag]

theorem isOperand_truncated (k : Fin 3) :
    isOperand (info.extractLsb' 0 138) k = isOperand info k := by
  fin_cases k
  · rfl
  · rfl
  · exact congrArg (!·) (noStoreData_truncated info)

end Truncated

/-- An operand without a tag is marked. -/
theorem marked_of_tag {i : Inputs} {k : Fin 3} (hk : isOperand i.renameIssueinfo k = true)
    (ht : tag i.renameIssueinfo k = 0) : marked i k = true := by
  fin_cases k
  · exact if_pos ht
  · exact if_pos ht
  · have hno : noStoreData i.renameIssueinfo = true := by
      have hzero : mapWr i.renameIssueinfo = 0 := ht
      simp [noStoreData, hzero]
    exact if_pos hno

/-- What is enqueued now is worth what is sampled now. -/
theorem right_enqueued (n : ℕ) (c : Slot) :
    Right (expected multReady env n n) (enqueued (input multReady env n) c) := by
  intro k _
  have hnone : heard multReady env n n = [] := by
    cases n with
    | zero => rfl
    | succ n => exact if_neg (by omega)
  rw [expected, hnone]
  rfl

theorem expected_succ {m : ℕ} (hm : m ≤ n) (k : Fin 3) :
    expected multReady env m (n + 1) k = (expected multReady env m n k).or
      ((broadcasts (input multReady env n).wakeup).lookup
        (tag (input multReady env m).renameIssueinfo k)) := by
  have hheard : heard multReady env m (n + 1) =
      heard multReady env m n ++ broadcasts (input multReady env n).wakeup := if_pos hm
  simp only [expected, hheard, List.lookup_append]
  split_ifs
  · rfl
  · rfl

/-- What the enqueue makes of slot `x`. -/
theorem enque_cases (i : Inputs) (s : State) (x : Fin 16) :
    (enqueSlot i s = some x ∧ enque i s x = enqueued i (s.queue x)) ∨
      (enqueSlot i s ≠ some x ∧ enque i s x = s.queue x) := by
  unfold enque
  cases he : enqueSlot i s with
  | none => exact .inr ⟨by simp, rfl⟩
  | some e =>
    by_cases hx : x = e
    · subst hx
      exact .inl ⟨rfl, Function.update_self ..⟩
    · exact .inr ⟨fun h => hx (Option.some.inj h).symm, Function.update_of_ne hx _ _⟩

/-- A rising edge empties a slot, fills it or leaves it. -/
theorem posedge_cases (i : Inputs) (s : State) (x : Fin 16) :
    (((posedge i s).queue x).empty = true ∧ ∀ k, ((posedge i s).queue x).ready k = false) ∨
    (enqueues i s = some x ∧ (posedge i s).queue x = enqueued i (s.queue x)) ∨
    (enqueues i s ≠ some x ∧ (posedge i s).queue x = s.queue x) := by
  unfold enqueues posedge
  cases hf : i.flush with
  | true => exact .inl ⟨rfl, fun _ => rfl⟩
  | false =>
    cases hs : i.stall with
    | true => exact .inr (.inr ⟨by simp, rfl⟩)
    | false =>
      simp only [Bool.or_self, Bool.false_eq_true, if_false]
      cases hout : instrOutIndex s with
      | none => exact .inr (enque_cases i s x)
      | some y =>
        by_cases hx : x = y
        · subst hx
          exact .inl (by simp [issued])
        · refine .inr ?_
          simp only [Function.update_of_ne hx]
          exact enque_cases i s x

/-- An empty slot asks for nothing. -/
def Idle (s : State) : Prop := ∀ x, (s.queue x).empty = true → ∀ k, (s.queue x).ready k = false

theorem idle_high (h : Idle (run multReady env n)) : Idle (high multReady env n) := by
  intro x hx
  rw [show high multReady env n = posedge (input multReady env n) (run multReady env n) from rfl]
    at hx ⊢
  rcases posedge_cases (input multReady env n) (run multReady env n) x with
    ⟨-, hready⟩ | ⟨-, hfill⟩ | ⟨-, hkeep⟩
  · exact hready
  · rw [hfill] at hx
    exact absurd hx Bool.false_ne_true
  · rw [hkeep] at hx ⊢
    exact h x hx

theorem idle_succ (h : Idle (high multReady env n)) : Idle (run multReady env (n + 1)) := by
  intro x hx k
  rw [show run multReady env (n + 1) = negedge (input multReady env n) (high multReady env n)
    from rfl] at hx ⊢
  rw [(negedge_fixed ..).2] at hx
  rw [ready_negedge_of_empty hx]
  exact h x hx k

/-- **What a rising edge leaves in the slots**: what holds of the instruction it enqueues
and of those that were there holds of all. -/
theorem high_forall {P : Fin 16 → ℕ → Slot → Prop}
    (hfill : ∀ x, P x n (enqueued (input multReady env n) ((run multReady env n).queue x)))
    (hkeep : ∀ x, ((run multReady env n).queue x).empty = false →
      P x (enqueuedAt multReady env n x) ((run multReady env n).queue x)) (x : Fin 16)
    (hx : ((high multReady env n).queue x).empty = false) :
    P x (enqueuedAt multReady env (n + 1) x) ((high multReady env n).queue x) := by
  rw [show high multReady env n = posedge (input multReady env n) (run multReady env n) from rfl]
    at hx ⊢
  rcases posedge_cases (input multReady env n) (run multReady env n) x with
    ⟨hempty, -⟩ | ⟨hat, hfilled⟩ | ⟨hat, hkept⟩
  · exact absurd (hx.symm.trans hempty) Bool.false_ne_true
  · rw [hfilled, enqueuedAt, if_pos hat]
    exact hfill x
  · rw [hkept] at hx ⊢
    rw [enqueuedAt, if_neg hat]
    exact hkeep x hx

/-- **The rising edge** fills one slot and empties another. -/
theorem keeps_high (h : Keeps multReady env (enqueuedAt multReady env n) n
      (run multReady env n)) :
    Keeps multReady env (enqueuedAt multReady env (n + 1)) n (high multReady env n) where
  empty := idle_high h.empty
  info := high_forall (P := fun _ m c =>
    c.info = (input multReady env m).renameIssueinfo.extractLsb' 0 138) (fun _ => rfl) h.info
  right := high_forall (P := fun _ m c => Right (expected multReady env m n) c)
    (fun _ => right_enqueued n _) h.right

/-- **The falling edge** supplies what it broadcasts. -/
theorem keeps_succ (h : Keeps multReady env (enqueuedAt multReady env (n + 1)) n
      (high multReady env n))
    (hclean : Clean (input multReady env n).wakeup (high multReady env n)) :
    Keeps multReady env (enqueuedAt multReady env (n + 1)) (n + 1) (run multReady env (n + 1)) := by
  have hrun : run multReady env (n + 1) =
      negedge (input multReady env n) (high multReady env n) := rfl
  have hfixed := negedge_fixed (input multReady env n) (high multReady env n)
  rw [← hrun] at hfixed
  refine ⟨idle_succ h.empty, fun x hx => ?_, fun x hx => ?_⟩
  · rw [(hfixed x).2] at hx
    rw [(hfixed x).1]
    exact h.info x hx
  · rw [(hfixed x).2] at hx
    have hinfo := h.info x hx
    have hsettled : Settled (expected multReady env (enqueuedAt multReady env (n + 1) x) n)
        ((high multReady env n).queue x) := by
      intro k hk ht
      rw [hinfo, isOperand_truncated] at hk
      rw [hinfo, tag_truncated] at ht
      simp [expected, marked_of_tag hk ht]
    have hright := right_negedge (i := input multReady env n) (h.right x hx) hsettled hx hclean
    rw [← hrun] at hright
    intro k hk
    rw [expected_succ (enqueuedAt_succ_le n x), ← tag_truncated, ← hinfo]
    exact hright k hk

theorem keeps_reset : Keeps multReady env (enqueuedAt multReady env 0) 0 (run multReady env 0) where
  empty _ _ _ := rfl
  info _ h := absurd (show true = false from h) (by decide)
  right _ h := absurd (show true = false from h) (by decide)

/-- **Every slot keeps what its operands are worth**, as long as the broadcasts
are treated as they should be. -/
theorem kept (n : ℕ)
    (hclean : ∀ k < n, Clean (input multReady env k).wakeup (high multReady env k)) :
    Keeps multReady env (enqueuedAt multReady env n) n (run multReady env n) := by
  induction n with
  | zero => exact keeps_reset
  | succ n ih =>
    have h := ih fun k hk => hclean k (Nat.lt_succ_of_lt hk)
    exact keeps_succ (keeps_high h) (hclean n (Nat.lt_succ_self n))

end Kept

section Sent

variable {i : Inputs} {s : State} {x : Fin 16}

/-- A slot that is sent has its three operands. -/
theorem ready_of_sends (h : sends i s = some x) (k : Fin 3) : (s.queue x).ready k = true := by
  unfold sends at h
  split_ifs at h
  have hready := ArbiterMain.of_granted h
  simp only [instrReady, Bool.and_eq_true] at hready
  fin_cases k
  · exact hready.1.1.1
  · exact hready.1.1.2
  · exact hready.1.2

/-- A slot that is sent is occupied. -/
theorem occupied_of_sends (hidle : Idle s) (h : sends i s = some x) :
    (s.queue x).empty = false := by
  by_contra hne
  have hready := ready_of_sends h 0
  rw [hidle x (by simpa using hne) 0] at hready
  exact Bool.false_ne_true hready

theorem out_negedge (i : Inputs) (s : State) : (negedge i s).out = s.out := by
  unfold negedge
  dsimp only
  split_ifs <;> rfl

/-- The registers after a rising edge that sends slot `x`. -/
theorem out_of_sends (h : sends i s = some x) :
    (posedge i s).out = sent (s.queue x) (enque i s x).oldRegs s.out := by
  unfold sends at h
  split_ifs at h with hno
  rw [Bool.or_eq_true, not_or] at hno
  rw [posedge, if_neg hno.1, if_neg hno.2, h]

/-- EXE is sent the operands of the slot. -/
theorem operand_of_sends (h : sends i s = some x) (k : Fin 3) :
    (negedge i (posedge i s)).out.operand k = (s.queue x).operand k := by
  rw [out_negedge, out_of_sends h]
  fin_cases k <;> rfl

end Sent

/-- **Operands are captured** in every run whose broadcasts are ignored by the
ready operands and by no other. -/
theorem captures (multReady : Fin 16 → Bool) (env : ℕ → State → Inputs) (n : ℕ)
    (hclean : ∀ k < n, Clean (input multReady env k).wakeup (high multReady env k)) :
    Captures multReady env n := by
  intro x hx k hk
  have h := kept n hclean
  have hready := ready_of_sends hx
  have hocc := occupied_of_sends h.empty hx
  have hright := h.right x hocc k
  rw [h.info x hocc, isOperand_truncated] at hright
  rw [hright hk, hready k, if_pos rfl]
  exact congrArg some (operand_of_sends hx k).symm

/-- EXE broadcasts 9 under tag 3. -/
def broadcastThree : Wakeup where
  stall := false
  flush := false
  exeBroadcast := true
  exeBroadcastMap := 3
  exeBroadcastVal := 9
  memBroadcast := false
  memBroadcastMap := 0
  memBroadcastVal := 0
  robInstrNum := 0

/-- Rename enqueues `info` as instruction `num` at the head of the ROB, with every
register holding 7 and none marked. -/
def fill (num : ℤ) (info : BitVec 170) (u : Wakeup) : Inputs where
  stall := false
  flush := false
  renameEnque := true
  renameInstrNum := num
  renameIssueinfo := info
  busy _ := false
  renameA := 0
  renameB := 0
  renameC := 0
  physReg _ := 7
  robInstrNum := num
  wakeup := u

/-- A HI/LO instruction with tag 3 for rs, an immediate and no store data. -/
def readsThree : BitVec 170 := 1#170 <<< 99 ||| 1#170 <<< 82 ||| 3#170

/-- One with register 0 for rs that waits for tag 5. -/
def waitsFive : BitVec 170 := 1#170 <<< 99 ||| 1#170 <<< 82 ||| 5#170 <<< 6

/-- One instruction, woken in the cycle it is enqueued in. -/
def oneSlot (n : ℕ) (_ : State) : Inputs :=
  { fill 1 readsThree broadcastThree with renameEnque := n == 0 }

/-- The instruction is sent in cycle 1 with what was broadcast. -/
theorem captures_oneSlot : Captures (fun _ => false) oneSlot 1 := by
  refine captures (fun _ => false) oneSlot 1 fun k hk => ?_
  obtain rfl : k = 0 := by omega
  refine ⟨fun hstall => ?_, fun _ _ _ => ?_, fun _ _ hmem => ?_⟩
  · exact absurd (show false = true from hstall) Bool.false_ne_true
  · unfold Sound
    decide +kernel
  · exact absurd (show false = true from hmem) Bool.false_ne_true

/-- An instruction in slot 0 that waits for tag 5, then one in slot 1 that waits
for tag 3, which is broadcast. -/
def twoSlots (n : ℕ) (_ : State) : Inputs :=
  match n with
  | 0 => fill 1 waitsFive { broadcastThree with exeBroadcast := false }
  | 1 => fill 2 readsThree broadcastThree
  | _ => { fill 3 0 broadcastThree with renameEnque := false }

/-- The instruction in slot 1 is sent in cycle 2 with the register as it was. -/
theorem not_captures_twoSlots : ¬∀ multReady env n, Captures multReady env n := by
  intro h
  have hsent := h (fun _ => false) twoSlots 2 1 (by decide +kernel) 0 rfl
  have hexpected : expected (fun _ => false) twoSlots
      (enqueuedAt (fun _ => false) twoSlots 2 1) 2 0 = some 9 := by decide +kernel
  have hout : (run (fun _ => false) twoSlots 3).out.operand 0 = 7 := by decide +kernel
  rw [hexpected, hout] at hsent
  exact absurd hsent (by decide)

end Issue
end OooProcessor
