/-
# The files of a program

A file descriptor that `main` hands out stands for a name, and a file for what has been
written since it was last opened, through whichever descriptor (`output_after`).  What a
program has written it can read back through the descriptor it got, without the ends of
lines and once (`file_round_trip`).  A descriptor that has been read or closed is closed for
the rest of the run: a read through it returns 0, but stores the text of its file all the
same (`main_closed`).
-/

import OooProcessor.Sim.Kept

namespace OooProcessor
namespace Sim

open Lib

/-- The call opens the file, by whatever name. -/
def Opens (disk : Disk) (file : String) (r : Request) : Prop :=
  syscalls.lookup (r.1 2) = some .openFile ∧
    (filenameAt r.2 (2 ^ 32) (r.1 4)).map (fun bytes => disk.file (stringOf bytes)) = some file

/-- The call closes the file descriptor, or would. -/
def Closes (fd : ℕ) (r : Request) : Prop :=
  (syscalls.lookup (r.1 2) = some .closeFile ∨ syscalls.lookup (r.1 2) = some .readFile) ∧
    (r.1 4).toNat = fd

/-- The bytes that a call writes to the file. -/
def writtenBy (disk : Disk) (file : String) (os : Os) (r : Request) : List (BitVec 8) :=
  if syscalls.lookup (r.1 2) = some .writeToFile ∧ r.1 4 ≠ 1 ∧ r.1 4 ≠ 2 ∧
      os.fdtFilename[(r.1 4).toNat]?.map disk.file = some file
  then bytesAt r.2 (r.1 5) (r.1 6).toNat
  else []

/-- The bytes that a run of calls writes to it. -/
def writtenTo (exec : ExecInfo) (host : HostCalls) (file : String) : Os → List Request →
    List (BitVec 8)
  | _, [] => []
  | os, r :: rs => writtenBy host.disk file os r ++
      writtenTo exec host file (switch exec host r.1 r.2 os).2.2 rs

section One

variable {exec : ExecInfo} {host : HostCalls} {os : Os} {r : Request} {h h' : Host}
  {name file : String} {fd : ℕ} {state : Word}

/-- The view of a file call has the registers. -/
theorem readRegister_hostOf (disk : Disk) (regs : Reg → Word) (m : MainMemory) (os : Os) {a : Reg}
    (ha : a ≠ 0) : readRegister (hostOf disk regs m os) a = regs a := by
  rw [readRegister, if_neg ha]
  exact congrArg regs (Fin.ext (Nat.mod_eq_of_lt a.isLt))

/-- A request that does not end the run makes a call that returns. -/
theorem exists_of_ended_eq_none (hends : (switch exec host r.1 r.2 os).2.2.ended = none) :
    ∃ call, syscalls.lookup (r.1 2) = some call ∧
      call.reply exec host r.1 r.2 os = .ok (switch exec host r.1 r.2 os) := by
  rcases switch_cases exec host r.1 r.2 os with ⟨hsome, heq⟩ | ⟨-, e, heq⟩ | ⟨-, h⟩
  · rw [heq] at hends
    rw [show os.ended = none from hends] at hsome
    cases hsome
  · rw [heq] at hends
    cases hends
  · exact h

/-- What a write adds to a file that it can open. -/
theorem output_write {reply : Reply} (hcall : syscalls.lookup (r.1 2) = some .writeToFile)
    (hwritable : host.disk.writable file = true)
    (hr : fileCall host.disk write r.1 r.2 os = .ok reply) :
    reply.2.2.output (.file file) = os.output (.file file) ++ writtenBy host.disk file os r := by
  obtain ⟨h', hwrite, rfl⟩ := fileCall_ok hr
  obtain ⟨streams, j, hdest, rfl, hj⟩ := write_leaves hwrite
  simp only [readRegister_hostOf _ _ _ _ (show (4 : Reg) ≠ 0 by decide),
    readRegister_hostOf _ _ _ _ (show (6 : Reg) ≠ 0 by decide)] at hdest hj
  show (if .file file ∈ streams.filter host.disk.opens then
    os.output (.file file) ++ bytesAt r.2 (readRegister (hostOf host.disk r.1 r.2 os) 5) j
      else os.output (.file file)) = _
  rw [readRegister_hostOf _ _ _ _ (show (5 : Reg) ≠ 0 by decide), writtenBy]
  by_cases hfd : r.1 4 ≠ 1 ∧ r.1 4 ≠ 2
  · rw [destination, if_neg hfd.1, if_neg hfd.2] at hdest
    obtain ⟨name, hname, rfl⟩ := Option.map_eq_some_iff.mp hdest
    have hname : os.fdtFilename[(r.1 4).toNat]? = some name := hname
    have hdisk : (hostOf host.disk r.1 r.2 os).disk = host.disk := rfl
    rw [hj hfd, hname, Option.map_some, hdisk]
    by_cases hsame : host.disk.file name = file
    · have hmem : .file file ∈ [Stream.file (host.disk.file name)].filter host.disk.opens :=
        List.mem_filter.mpr ⟨by rw [hsame]; exact List.mem_singleton_self _, hwritable⟩
      rw [if_pos hmem, if_pos ⟨hcall, hfd.1, hfd.2, congrArg some hsame⟩]
    · have hmem : .file file ∉ [Stream.file (host.disk.file name)].filter host.disk.opens :=
        fun hmem => hsame (Stream.file.inj (List.mem_singleton.mp
          (List.mem_filter.mp hmem).1)).symm
      rw [if_neg hmem, if_neg fun h => hsame (Option.some.inj h.2.2.2), List.append_nil]
  · have hconsole : .file file ∉ streams := by
      rw [destination] at hdest
      split_ifs at hdest with h1 h2
      · obtain rfl := Option.some.inj hdest
        simp
      · obtain rfl := Option.some.inj hdest
        simp
      · exact absurd ⟨h1, h2⟩ hfd
    rw [if_neg fun hmem => hconsole (List.mem_filter.mp hmem).1,
      if_neg fun h => hfd ⟨h.2.1, h.2.2.1⟩, List.append_nil]

/-- **What one call does to a file** that can be written. -/
theorem output_switch (hends : (switch exec host r.1 r.2 os).2.2.ended = none)
    (hwritable : host.disk.writable file = true) (hopens : ¬Opens host.disk file r) :
    (switch exec host r.1 r.2 os).2.2.output (.file file) =
      os.output (.file file) ++ writtenBy host.disk file os r := by
  obtain ⟨call, hcall, hr⟩ := exists_of_ended_eq_none hends
  generalize switch exec host r.1 r.2 os = reply at hr
  have hnothing (hne : call ≠ .writeToFile) : writtenBy host.disk file os r = [] :=
    if_neg fun h => hne (Option.some.inj (hcall.symm.trans h.1))
  cases hfile : call.isFile with
  | false =>
    obtain ⟨heap, currentBreak, heq⟩ := reply_of_not_file hr hfile
    have hne : call ≠ .writeToFile := by
      rintro rfl
      cases hfile
    rw [heq, hnothing hne, List.append_nil]
  | true =>
    cases call with
    | readFile =>
      obtain ⟨h', hread, rfl⟩ := fileCall_ok hr
      rw [hnothing (by decide), List.append_nil]
      exact congrFun (read_leaves hread).2.1 _
    | closeFile =>
      obtain rfl := closeCall_ok hr
      rw [hnothing (by decide), List.append_nil]
    | openFile =>
      obtain ⟨bytes, hname, rfl⟩ := openCall_ok hr
      have hne : host.disk.file (stringOf bytes) ≠ file := fun heq =>
        hopens ⟨hcall, by rw [hname, Option.map_some, heq]⟩
      rw [hnothing (by decide), List.append_nil]
      exact if_neg fun h => hne (Stream.file.inj h.1).symm
    | writeToFile =>
      exact output_write hcall hwritable hr
    | exit | stat | fStat | kill | brk | mMap | munmap | uname | malloc | hostCall call =>
      cases hfile

/-- What one call does to a file descriptor. -/
theorem state_switch (hends : (switch exec host r.1 r.2 os).2.2.ended = none)
    (hcloses : ¬Closes fd r) (hfd : fd < os.fdtState.length) :
    (switch exec host r.1 r.2 os).2.2.fdtState[fd]? = os.fdtState[fd]? := by
  obtain ⟨call, hcall, hr⟩ := exists_of_ended_eq_none hends
  generalize switch exec host r.1 r.2 os = reply at hr
  cases hfile : call.isFile with
  | false =>
    obtain ⟨heap, currentBreak, heq⟩ := reply_of_not_file hr hfile
    rw [heq]
  | true =>
    cases call with
    | readFile =>
      obtain ⟨h', hread, rfl⟩ := fileCall_ok hr
      have hne : (readRegister (hostOf host.disk r.1 r.2 os) 4).toNat ≠ fd := by
        rw [readRegister_hostOf _ _ _ _ (by decide)]
        exact fun h => hcloses ⟨.inr hcall, h⟩
      obtain ⟨-, -, -, -, -, state, -, hstate⟩ := read_leaves hread
      rw [Os.withFiles, hstate]
      split_ifs
      · rfl
      · exact List.getElem?_set_ne hne
    | closeFile =>
      obtain rfl := closeCall_ok hr
      exact List.getElem?_set_ne fun h => hcloses ⟨.inl hcall, h⟩
    | openFile =>
      obtain ⟨bytes, -, rfl⟩ := openCall_ok hr
      exact List.getElem?_append_left hfd
    | writeToFile =>
      obtain ⟨h', hwrite, rfl⟩ := fileCall_ok hr
      obtain ⟨streams, j, -, rfl, -⟩ := write_leaves hwrite
      rfl
    | exit | stat | fStat | kill | brk | mMap | munmap | uname | malloc | hostCall call =>
      cases hfile

/-- A file descriptor that stands for a file has the lines of it. -/
theorem inputText_hostOf (disk : Disk) (hfd : r.1 4 ≠ 0)
    (hname : os.fdtFilename[(r.1 4).toNat]? = some name)
    (hcan : canRead (hostOf disk r.1 r.2 os) (disk.file name) = true) :
    inputText (hostOf disk r.1 r.2 os) (r.1 4) =
      some (lines (os.output (.file (disk.file name)))) := by
  have hname : (hostOf disk r.1 r.2 os).fdtFilename[(r.1 4).toNat]? = some name := hname
  rw [inputText, if_neg hfd, hname]
  exact if_pos hcan

/-- The view of a file call has the states. -/
theorem state_hostOf (disk : Disk) {v : Word} (h : os.fdtState[(r.1 4).toNat]? = some v) :
    (hostOf disk r.1 r.2 os).fdtState[
      (readRegister (hostOf disk r.1 r.2 os) 4).toNat]? = some v := by
  rw [readRegister_hostOf _ _ _ _ (by decide)]
  exact h

section Read

variable {text : List (BitVec 8)} (hfd : r.1 4 ≠ 0)
  (htext : inputText (hostOf host.disk r.1 r.2 os) (r.1 4) = some text)
  (hno : NoOverflow (r.1 5) (delivered text).length)

include hfd htext hno

/-- **A read** through a file descriptor that is open delivers the text, and closes it. -/
theorem reply_read (hopen : os.fdtState[(r.1 4).toNat]? = some 1) :
    Syscall.readFile.reply exec host r.1 r.2 os =
      .ok ([(2, BitVec.ofNat 32 (delivered text).length)],
        put r.2 (r.1 5) (delivered text).length (fun j => (delivered text).getD j 0),
        { os with fdtState := os.fdtState.set (r.1 4).toNat 0 }) := by
  have h4 := readRegister_hostOf host.disk r.1 r.2 os (show (4 : Reg) ≠ 0 by decide)
  have h5 := readRegister_hostOf host.disk r.1 r.2 os (show (5 : Reg) ≠ 0 by decide)
  have hstate := state_hostOf host.disk hopen
  rw [← h4] at htext
  rw [← h5] at hno
  obtain ⟨h', hread, hmem, hreg⟩ := read_eq htext hstate (.inr (by decide)) hno
  obtain ⟨hnames, houtput, hcreated, -, hstdin, state, hstate', hclosed⟩ := read_leaves hread
  obtain rfl := Option.some.inj (hstate.symm.trans hstate')
  rw [h4] at hstdin hclosed
  rw [if_neg (by decide)] at hclosed
  rw [h5] at hmem
  show fileCall host.disk read r.1 r.2 os = _
  rw [fileCall, hread]
  dsimp only
  rw [hreg, hmem, Os.withFiles, hnames, houtput, hcreated, hclosed, hstdin hfd]
  rfl

/-- One through a file descriptor that is closed stores it as well, but returns 0. -/
theorem reply_read_closed (hclosed : os.fdtState[(r.1 4).toNat]? = some 0) :
    Syscall.readFile.reply exec host r.1 r.2 os =
      .ok ([(2, 0)],
        put r.2 (r.1 5) (delivered text).length (fun j => (delivered text).getD j 0), os) := by
  have h4 := readRegister_hostOf host.disk r.1 r.2 os (show (4 : Reg) ≠ 0 by decide)
  have h5 := readRegister_hostOf host.disk r.1 r.2 os (show (5 : Reg) ≠ 0 by decide)
  have hread := read_closed_eq (by rwa [h4]) (state_hostOf host.disk hclosed) (by rwa [h4])
    (by rwa [h5])
  show fileCall host.disk read r.1 r.2 os = _
  rw [fileCall, hread, h5]
  rfl

end Read

end One

section Runs

variable {exec : ExecInfo} {host : HostCalls} {os : Os} {r r₀ : Request} {rs : List Request}
  {file : String} {fd : ℕ}

theorem ended_of_after (hends : (os.after exec host rs).ended = none) : os.ended = none := by
  cases hended : os.ended with
  | none => rfl
  | some e =>
    rw [after_of_ended (Option.isSome_iff_exists.mpr ⟨e, hended⟩), hended] at hends
    exact hends

/-- **What a run of calls does to a file**: it appends what they write. -/
theorem output_after (hends : (os.after exec host rs).ended = none)
    (hwritable : host.disk.writable file = true) (hopens : ∀ r ∈ rs, ¬Opens host.disk file r) :
    (os.after exec host rs).output (.file file) =
      os.output (.file file) ++ writtenTo exec host file os rs := by
  induction rs generalizing os with
  | nil => exact (List.append_nil _).symm
  | cons r rs ih =>
    have hends : ((switch exec host r.1 r.2 os).2.2.after exec host rs).ended = none := hends
    have hone := output_switch (ended_of_after hends) hwritable (hopens r (List.mem_cons_self ..))
    rw [writtenTo, ← List.append_assoc, ← hone]
    exact ih hends fun r hr => hopens r (List.mem_cons_of_mem _ hr)

/-- A file descriptor that is not closed stays as it is. -/
theorem state_after (hin : InOrder os) (hends : (os.after exec host rs).ended = none)
    (hcloses : ∀ r ∈ rs, ¬Closes fd r) (hfd : fd < os.fdtState.length) :
    (os.after exec host rs).fdtState[fd]? = os.fdtState[fd]? := by
  induction rs generalizing os with
  | nil => rfl
  | cons r rs ih =>
    have hended := ended_of_after hends
    have hends : ((switch exec host r.1 r.2 os).2.2.after exec host rs).ended = none := hends
    have hone := state_switch (ended_of_after hends) (hcloses r (List.mem_cons_self ..)) hfd
    have hlt : fd < (switch exec host r.1 r.2 os).2.2.fdtState.length := by
      rw [List.getElem?_eq_getElem hfd] at hone
      exact (List.getElem?_eq_some_iff.mp hone).1
    have hin' := hin.leaves (leaves_switch exec host r.1 r.2 os hended)
    rw [← hone]
    exact ih hin' hends (fun r hr => hcloses r (List.mem_cons_of_mem _ hr)) hlt

/-- **A program reads back what it wrote.**  It opens a file, which the host lets `main` write
and read, and gets a file descriptor, and then makes any calls but those that open the file
again, or close or read the file descriptor.  What they write to the file comes back, line
after line, and the file descriptor is closed. -/
theorem file_round_trip (hin : InOrder os) (hended : os.ended = none)
    (hlen : os.fdtFilename.length < 2 ^ 32) {bytes : List (BitVec 8)}
    (hopen : syscalls.lookup (r₀.1 2) = some .openFile)
    (hname : filenameAt r₀.2 (2 ^ 32) (r₀.1 4) = some bytes)
    (hfile : host.disk.file (stringOf bytes) = file)
    (hwritable : host.disk.writable file = true) (hreadable : host.disk.readable file = true)
    (hopens : ∀ r ∈ rs, ¬Opens host.disk file r)
    (hcloses : ∀ r ∈ rs, ¬Closes os.fdtFilename.length r)
    (hends : (os.after exec host (r₀ :: rs)).ended = none)
    (hread : syscalls.lookup (r.1 2) = some .readFile)
    (hfd : r.1 4 = BitVec.ofNat 32 os.fdtFilename.length) {text : List (BitVec 8)}
    (htext : text = delivered
      (lines (writtenTo exec host file (os.opened host.disk (stringOf bytes)) rs)))
    (hno : NoOverflow (r.1 5) text.length) :
    (switch exec host r₀.1 r₀.2 os).1 = [(2, r.1 4)] ∧
      switch exec host r.1 r.2 (os.after exec host (r₀ :: rs)) =
        ([(2, BitVec.ofNat 32 text.length)],
          put r.2 (r.1 5) text.length (fun j => text.getD j 0),
          { os.after exec host (r₀ :: rs) with
            fdtState :=
              (os.after exec host (r₀ :: rs)).fdtState.set os.fdtFilename.length 0 }) := by
  have hreplied : Syscall.openFile.reply exec host r₀.1 r₀.2 os =
      .ok ([(2, os.fileDescriptorIndex)], r₀.2, os.opened host.disk (stringOf bytes)) := by
    show openCall host.disk r₀.1 r₀.2 os = _
    rw [openCall, hname]
  have hopened := switch_of_reply hended hopen hreplied
  have hafter : os.after exec host (r₀ :: rs) =
      (os.opened host.disk (stringOf bytes)).after exec host rs := by
    show Os.after exec host (switch exec host r₀.1 r₀.2 os).2.2 rs = _
    rw [hopened]
  have hin' : InOrder (os.opened host.disk (stringOf bytes)) := hin.leaves (.opened _ _)
  rw [hafter] at hends ⊢
  have hlast : (r.1 4).toNat = os.fdtFilename.length := by
    rw [hfd, BitVec.toNat_ofNat, Nat.mod_eq_of_lt hlen]
  have hstandard : 3 ≤ os.fdtFilename.length := hin.standard.length_le
  have htruncates : host.disk.Truncates (stringOf bytes) (.file file) := ⟨by rw [hfile], hwritable⟩
  have houtput := output_after hends hwritable hopens
  rw [show (os.opened host.disk (stringOf bytes)).output (.file file) = [] from
    if_pos htruncates, List.nil_append] at houtput
  have hlt : os.fdtFilename.length <
      (os.opened host.disk (stringOf bytes)).fdtFilename.length := by
    rw [Os.opened, List.length_append]
    exact Nat.lt_succ_self _
  have hstate := state_after hin' hends hcloses (hin'.length.symm ▸ hlt)
  have hnew : (os.opened host.disk (stringOf bytes)).fdtState[os.fdtFilename.length]? =
      some 1 := by
    rw [Os.opened, ← hin.length]
    exact List.getElem?_concat_length
  have hextends := extends_after exec host (os.opened host.disk (stringOf bytes)) rs
  have hfilename : ((os.opened host.disk (stringOf bytes)).after exec host rs).fdtFilename[
      os.fdtFilename.length]? = some (stringOf bytes) := by
    obtain ⟨names, hnames⟩ := hextends.fdtFilename
    rw [← hnames, List.getElem?_append_left hlt]
    exact List.getElem?_concat_length
  have hcreated : ((os.opened host.disk (stringOf bytes)).after exec host rs).created file =
      true := by
    refine hextends.created file (Bool.or_eq_true_iff.mpr (.inr ?_))
    exact decide_eq_true htruncates
  rw [hnew] at hstate
  rw [← hlast] at hstate hfilename
  have hne : r.1 4 ≠ 0 := fun h => by
    rw [h] at hlast
    have hzero : (0 : Word).toNat = 0 := rfl
    omega
  have hinput : inputText (hostOf host.disk r.1 r.2
      ((os.opened host.disk (stringOf bytes)).after exec host rs)) (r.1 4) =
        some (lines (writtenTo exec host file (os.opened host.disk (stringOf bytes)) rs)) := by
    rw [inputText_hostOf host.disk hne hfilename, hfile, houtput]
    rw [hfile, canRead, Bool.and_eq_true, Bool.or_eq_true]
    exact ⟨hreadable, .inr hcreated⟩
  subst htext
  refine ⟨?_, ?_⟩
  · rw [hopened, hin.index, hfd]
  · rw [switch_of_reply hends hread (reply_read hne hinput hno hstate), hlast]

/-- Three calls on a memory: they open the file `f`, write two lines to it, and read it. -/
def linesOfF (call fd : Word) : Request :=
  (fun a => if a = 2 then call else if a = 4 then fd else if a = 5 then 0x200
    else if a = 6 then 3 else 0,
    fun a => if a = 0x100 then 0x66 else if a = 0x200 then 0x61 else if a = 0x201 then 0x0a
      else if a = 0x202 then 0x62 else 0)

/-- The two lines come back as one, with an end of line. -/
theorem file_round_trip_lines :
    (switch ⟨0, 0, 0, 0, 0, none⟩ .silent (linesOfF 4005 0x100).1 (linesOfF 4005 0x100).2
      (Os.init [] fun _ => [])).1 = [(2, 3)] ∧
    (switch ⟨0, 0, 0, 0, 0, none⟩ .silent (linesOfF 4003 3).1 (linesOfF 4003 3).2
      ((Os.init [] fun _ => []).after ⟨0, 0, 0, 0, 0, none⟩ .silent
        [linesOfF 4005 0x100, linesOfF 4004 3])).1 = [(2, 3)] := by
  have hwrites : ∀ r ∈ [linesOfF 4004 3], syscalls.lookup (r.1 2) = some .writeToFile := by
    intro r hr
    obtain rfl := List.mem_singleton.mp hr
    rfl
  obtain ⟨hopen, hread⟩ := @file_round_trip ⟨0, 0, 0, 0, 0, none⟩ .silent (Os.init [] fun _ => [])
    (linesOfF 4003 3) (linesOfF 4005 0x100) [linesOfF 4004 3] "f"
    (inOrder_init [] fun _ => []) rfl (by decide) [0x66] rfl (by decide +kernel)
    (by decide +kernel) rfl rfl
    (fun r hr h => by
      rw [Opens, hwrites r hr] at h
      cases h.1)
    (fun r hr h => by
      rw [Closes, hwrites r hr] at h
      rcases h.1 with h | h <;> cases h)
    (by decide +kernel) rfl rfl _ rfl ⟨by decide +kernel, by decide +kernel⟩
  exact ⟨hopen, (congrArg Prod.fst hread).trans (by decide +kernel)⟩

end Runs

/-- **A file descriptor that has been closed**, by a call or because it has been read, is
closed for the rest of the run.  A read through it returns 0 and changes no table, and yet it
stores the text of the file. -/
theorem main_closed (exec : ExecInfo) (host : HostCalls) (m : MainMemory) (d : Word)
    (stdin : List (BitVec 8)) (output : Stream → List (BitVec 8)) (n k : ℕ) (r : Request)
    (hclosed : (osAt exec host m d stdin output n).fdtState[(r.1 4).toNat]? = some 0)
    (hfd : 3 ≤ (r.1 4).toNat) (hcall : r.1 2 = 4003)
    (hended : (osAt exec host m d stdin output (n + k)).ended = none) {text : List (BitVec 8)}
    (htext : inputText (hostOf host.disk r.1 r.2 (osAt exec host m d stdin output (n + k)))
      (r.1 4) = some text)
    (hno : NoOverflow (r.1 5) (delivered text).length) :
    (osAt exec host m d stdin output (n + k)).fdtState[(r.1 4).toNat]? = some 0 ∧
      switch exec host r.1 r.2 (osAt exec host m d stdin output (n + k)) =
        ([(2, 0)],
          put r.2 (r.1 5) (delivered text).length (fun j => (delivered text).getD j 0),
          osAt exec host m d stdin output (n + k)) := by
  have hclosed := (extends_osAt exec host m d stdin output n k).closed _ hclosed
  have hne : r.1 4 ≠ 0 := fun h => by
    rw [h] at hfd
    exact absurd hfd (by decide)
  have hlookup : syscalls.lookup (r.1 2) = some .readFile := by
    rw [hcall]
    rfl
  exact ⟨hclosed, switch_of_reply hended hlookup (reply_read_closed hne htext hno hclosed)⟩

/-- A host whose files are there, and for reading only. -/
def readOnly : HostCalls :=
  { HostCalls.silent with
    disk := { Disk.plain with writable := fun _ => false, found := fun _ => true } }

/-- Its file `f` has two lines. -/
def twoLines (s : Stream) : List (BitVec 8) := if s = .file "f" then [0x61, 0x0a, 0x62] else []

/-- `addiu $4,$0,0x100; addiu $2,$0,4005; syscall; addiu $4,$0,3; addiu $2,$0,4006; syscall`,
with `f` at address 0x100. -/
def closing : MainMemory :=
  Function.update
    (atVector [0x24040100, 0x24020FA5, 0x0000000C, 0x24040003, 0x24020FA6, 0x0000000C]) 0x100 0x66

def closingProgram : Program := .ofList callingCode closing
  above_callingCode (by decide +kernel)

instance (m : MainMemory) : Decidable (closingProgram.In m) :=
  inferInstanceAs (Decidable ((Program.ofList callingCode closing _ _).In m))

theorem osAt_closing {j : ℕ} (hj : j ≤ 7) :
    osAt ⟨0, 0, 0, 0, 0, none⟩ readOnly closing 0 [] twoLines
        (4 * issueSlot (switch ⟨0, 0, 0, 0, 0, none⟩ readOnly)
          (Counted.start closing 0 (Os.init [] twoLines)) j) =
      ((Counted.step (switch ⟨0, 0, 0, 0, 0, none⟩ readOnly))^[j]
        (Counted.start closing 0 (Os.init [] twoLines))).os := by
  have hobeys : ∀ k ≤ 7, ((Counted.step (switch ⟨0, 0, 0, 0, 0, none⟩ readOnly))^[k]
      (Counted.start closing 0 (Os.init [] twoLines))).Obeys closingProgram := by
    decide +kernel
  exact (issues_slot sparesZero_switch fun k hk => hobeys k (hk.trans hj)).1.os

/-- The two lines are stored all the same when the descriptor has been closed. -/
theorem main_closed_twoLines :
    switch ⟨0, 0, 0, 0, 0, none⟩ readOnly (linesOfF 4003 3).1 (linesOfF 4003 3).2
        (osAt ⟨0, 0, 0, 0, 0, none⟩ readOnly closing 0 [] twoLines (36 + 4)) =
      ([(2, 0)], put (linesOfF 4003 3).2 0x200 3 (fun j => [0x61, 0x62, 0x0a].getD j 0),
        osAt ⟨0, 0, 0, 0, 0, none⟩ readOnly closing 0 [] twoLines (36 + 4)) := by
  have hsix := osAt_closing (j := 6) (by omega)
  have hseven := osAt_closing (j := 7) le_rfl
  rw [show issueSlot (switch ⟨0, 0, 0, 0, 0, none⟩ readOnly)
    (Counted.start closing 0 (Os.init [] twoLines)) 6 = 9 by decide +kernel] at hsix
  rw [show issueSlot (switch ⟨0, 0, 0, 0, 0, none⟩ readOnly)
    (Counted.start closing 0 (Os.init [] twoLines)) 7 = 10 by decide +kernel] at hseven
  refine (@main_closed ⟨0, 0, 0, 0, 0, none⟩ readOnly closing 0 [] twoLines 36 4
    (linesOfF 4003 3) ?_ (by decide +kernel) rfl ?_ [0x61, 0x62] ?_
    ⟨by decide +kernel, by decide +kernel⟩).2
  · rw [show 36 = 4 * 9 from rfl, hsix]
    decide +kernel
  · rw [show 36 + 4 = 4 * 10 from rfl, hseven]
    decide +kernel
  · rw [show 36 + 4 = 4 * 10 from rfl, hseven]
    decide +kernel

end Sim
end OooProcessor
