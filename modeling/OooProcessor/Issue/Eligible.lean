/-
# Who asks for EXE

Beside its three operands an instruction needs the permission `mult_ready` of its
slot.  A HI/LO instruction is to have it from the cycle on in which its number is at
the head of the ROB; any other is to have it at once.  `mult_ready` is written for
HI/LO instructions only: what another finds in its slot is what the last HI/LO
instruction there has left, or what was in it at power-up (`permissions_run`).  So an
ordinary instruction is withheld just if that is 0 (`eligible_iff`).
-/

import OooProcessor.Issue.Held

namespace OooProcessor
namespace Issue

open Lib

variable (multReady : Fin 16 → Bool) (env : ℕ → State → Inputs)

/-- The number of the instruction enqueued in cycle `m` has been at the head of the ROB
when it was enqueued, or at a falling edge that Issue heeds since, before cycle `n`. -/
def HeadSeen (m n : ℕ) : Prop :=
  (input multReady env m).robInstrNum = (input multReady env m).renameInstrNum ∨
    ∃ k, m ≤ k ∧ k < n ∧ ((input multReady env k).wakeup.flush ||
        (input multReady env k).wakeup.stall) = false ∧
      (input multReady env k).wakeup.robInstrNum = (input multReady env m).renameInstrNum

/-- **Who is requested to the arbiter**, of the instructions enqueued in the cycles
`filled x`. -/
def Requests (filled : Fin 16 → ℕ) (n : ℕ) (s : State) : Prop :=
  ∀ x, (s.queue x).empty = false →
    (instrReady s x = true ↔ (∀ k, (s.queue x).ready k = true) ∧
      (hilo (input multReady env (filled x)).renameIssueinfo = 0 ∨
        HeadSeen multReady env (filled x) n))

/-- Before and after the rising edge of cycle `n`. -/
def Eligible (n : ℕ) : Prop :=
  Requests multReady env (enqueuedAt multReady env n) n (run multReady env n) ∧
    Requests multReady env (enqueuedAt multReady env (n + 1)) n (high multReady env n)

/-- No ordinary instruction with its operands stands in a slot that had no permission
when it was enqueued. -/
def Permitted (filled : Fin 16 → ℕ) (s : State) : Prop :=
  ∀ x, (s.queue x).empty = false → hilo (input multReady env (filled x)).renameIssueinfo = 0 →
    (∀ k, (s.queue x).ready k = true) →
      ((run multReady env (filled x)).queue x).multReady = true

section Permission

variable {multReady env} {m n : ℕ}

/-- The permission of slot `x`, filled in cycle `m`. -/
def Permission (multReady : Fin 16 → Bool) (env : ℕ → State → Inputs) (m n : ℕ) (x : Fin 16) :
    Prop :=
  if hilo (input multReady env m).renameIssueinfo = 0 then
    ((run multReady env m).queue x).multReady = true
  else HeadSeen multReady env m n

theorem headSeen_self : HeadSeen multReady env m m ↔
    (input multReady env m).robInstrNum = (input multReady env m).renameInstrNum := by
  constructor
  · rintro (h | ⟨k, hm, hk, -⟩)
    · exact h
    · omega
  · exact .inl

theorem headSeen_succ (hm : m ≤ n) : HeadSeen multReady env m (n + 1) ↔
    HeadSeen multReady env m n ∨ (((input multReady env n).wakeup.flush ||
        (input multReady env n).wakeup.stall) = false ∧
      (input multReady env n).wakeup.robInstrNum = (input multReady env m).renameInstrNum) := by
  constructor
  · rintro (h | ⟨k, hmk, hk, h⟩)
    · exact .inl (.inl h)
    · rcases Nat.lt_succ_iff_lt_or_eq.mp hk with hlt | rfl
      · exact .inl (.inr ⟨k, hmk, hlt, h⟩)
      · exact .inr h
  · rintro ((h | ⟨k, hmk, hk, h⟩) | h)
    · exact .inl h
    · exact .inr ⟨k, hmk, Nat.lt_succ_of_lt hk, h⟩
    · exact .inr ⟨n, hm, Nat.lt_succ_self n, h⟩

theorem hilo_truncated (info : BitVec 170) : hilo (info.extractLsb' 0 138) = hilo info :=
  extract_truncated info (by decide)

/-- A falling edge leaves the permission of an ordinary instruction. -/
theorem multReady_permit_ordinary {u : Wakeup} {c : Slot} (h : hilo c.info = 0) :
    (permit u c).multReady = c.multReady := by
  have hno : (hilo c.info != 0) = false := by rw [h]; rfl
  rw [permit, hno, Bool.and_false, if_neg Bool.false_ne_true]

theorem multReady_permit {u : Wakeup} {c : Slot} (hocc : c.empty = false) (h : hilo c.info ≠ 0) :
    (permit u c).multReady = (u.robInstrNum == c.instrNum || c.multReady) := by
  rw [permit, hocc, bne_iff_ne.mpr h, Bool.not_false, Bool.true_and, if_pos rfl]

/-- The permissions of all the occupied slots. -/
def Permissions (multReady : Fin 16 → Bool) (env : ℕ → State → Inputs) (filled : Fin 16 → ℕ)
    (n : ℕ) (s : State) : Prop :=
  ∀ x, (s.queue x).empty = false →
    ((s.queue x).multReady = true ↔ Permission multReady env (filled x) n x)

/-- An enqueue writes the permission of a HI/LO instruction only. -/
theorem permissions_high
    (h : Permissions multReady env (enqueuedAt multReady env n) n (run multReady env n)) :
    Permissions multReady env (enqueuedAt multReady env (n + 1)) n (high multReady env n) := by
  refine high_forall (P := fun x m c => c.multReady = true ↔ Permission multReady env m n x)
    (fun x => ?_) h
  show (if hilo (input multReady env n).renameIssueinfo ≠ 0 then _ else _) = true ↔
    Permission multReady env n n x
  rw [Permission]
  by_cases hz : hilo (input multReady env n).renameIssueinfo = 0
  · rw [if_pos hz, if_neg (not_not_intro hz)]
  · rw [if_neg hz, if_pos hz, headSeen_self, beq_iff_eq]

/-- **A falling edge** permits the HI/LO instruction at the head of the ROB. -/
theorem permissions_succ {filled : Fin 16 → ℕ} (hfilled : ∀ x, filled x ≤ n)
    (hold : Holds multReady env filled (high multReady env n))
    (h : Permissions multReady env filled n (high multReady env n)) :
    Permissions multReady env filled (n + 1) (run multReady env (n + 1)) := by
  intro x hx
  obtain ⟨-, hempty, -, hmult⟩ := keeping_negedge (input multReady env n) (high multReady env n) x
  have hrun : run multReady env (n + 1) =
      negedge (input multReady env n) (high multReady env n) := rfl
  have hocc : ((high multReady env n).queue x).empty = false := by
    rw [hrun, (negedge_fixed ..).2] at hx
    exact hx
  have hold' := h x hocc
  rw [hrun, hmult]
  have hinfo : hilo ((high multReady env n).queue x).info =
      hilo (input multReady env (filled x)).renameIssueinfo := by
    rw [hold.info x hocc, hilo_truncated]
  by_cases hz : hilo (input multReady env (filled x)).renameIssueinfo = 0
  · rw [Permission, if_pos hz] at hold' ⊢
    split_ifs
    · exact hold'
    · rw [multReady_permit_ordinary (hinfo.trans hz)]
      exact hold'
  · rw [Permission, if_neg hz] at hold' ⊢
    rw [headSeen_succ (hfilled x)]
    split_ifs with hskip
    · simp [hskip, hold']
    · rw [multReady_permit hocc (by rwa [hinfo]), hold.instrNum x hocc, Bool.or_eq_true,
        beq_iff_eq, hold', or_comm]
      simp [hskip]

/-- **A slot has the permission it was given.** -/
theorem permissions_run (n : ℕ) :
    Permissions multReady env (enqueuedAt multReady env n) n (run multReady env n) := by
  induction n with
  | zero => exact fun _ h => absurd (show true = false from h) (by decide)
  | succ n ih =>
    exact permissions_succ (enqueuedAt_succ_le n) (holds_high (holds_run n)) (permissions_high ih)

/-- Who is requested depends on the permissions alone. -/
theorem requests_iff {filled : Fin 16 → ℕ} {s : State}
    (h : Permissions multReady env filled n s) :
    Requests multReady env filled n s ↔ Permitted multReady env filled s := by
  have hready (x : Fin 16) : instrReady s x = true ↔
      (∀ k, (s.queue x).ready k = true) ∧ (s.queue x).multReady = true := by
    simp [instrReady, Fin.forall_fin_succ, and_assoc]
  constructor
  · intro hreq x hx hz hall
    have hgranted := (hreq x hx).mpr ⟨hall, .inl hz⟩
    have hperm := (h x hx).mp ((hready x).mp hgranted).2
    rwa [Permission, if_pos hz] at hperm
  · intro hall x hx
    rw [hready x, h x hx, Permission]
    split_ifs with hz
    · simp only [hz, true_or, and_true, and_iff_left_iff_imp]
      exact hall x hx hz
    · simp only [hz, false_or]

end Permission

/-- **Who asks for EXE**: in every state of a run the requests are those of the
instructions that have their operands, and are ordinary or have been at the head of
the ROB, if and only if the slot of every ordinary one of them had its permission when
it was enqueued. -/
theorem eligible_iff (n : ℕ) : Eligible multReady env n ↔
    Permitted multReady env (enqueuedAt multReady env n) (run multReady env n) ∧
      Permitted multReady env (enqueuedAt multReady env (n + 1)) (high multReady env n) := by
  rw [Eligible, requests_iff (permissions_run n),
    requests_iff (permissions_high (permissions_run n))]

/-- An ordinary instruction without register operands, in the first cycle. -/
def ordinary (n : ℕ) (_ : State) : Inputs :=
  { fill 1 (1#170 <<< 99) { broadcastThree with exeBroadcast := false } with
    renameEnque := n == 0 }

/-- It is withheld where `mult_ready` powers up as 0. -/
theorem not_eligible_ordinary : ¬∀ multReady env n, Eligible multReady env n := by
  intro h
  have hslot := (h (fun _ => false) ordinary 1).1 0 (by decide +kernel)
  have hready : ∀ k, ((run (fun _ => false) ordinary 1).queue 0).ready k = true := by
    decide +kernel
  have hasks : instrReady (run (fun _ => false) ordinary 1) 0 = false := by decide +kernel
  rw [hslot.mpr ⟨hready, .inl (by decide +kernel)⟩] at hasks
  exact Bool.false_ne_true hasks.symm

end Issue
end OooProcessor
