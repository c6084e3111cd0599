import OpenWebCodex.PatchApply
/-!
# PatchDisk — a file system whose operations may fail

`Files` is what a file system holds: texts, other bytes and symbolic links, at the place each path names.  `diskFs` is an
`ExecutorFileSystem` over it with directories, in which any call may fail: a failed probe or read changes nothing, a
failed write or removal may have taken effect, in whole or (for a write) in part.  `Behaves` is all the rest of the
development knows of it.
-/
namespace Owc.Patch

open Function

/-! ## What a file system holds -/

inductive FileNode (P : Type)
  | text (content : Str)
  /-- Bytes that are no UTF-8. -/
  | binary
  | link (target : P)
deriving DecidableEq

/-- `canon` is the place a path names: directories that are links, `..` and the case of letters are resolved, a link in
the last component is not. -/
structure Files (P : Type) where
  canon : P → P
  entries : P → Option (FileNode P)

variable {P : Type} [DecidableEq P]

variable {f : Files P} {p : P}

namespace Files

def set (f : Files P) (q : P) (node : Option (FileNode P)) : Files P := { f with entries := Function.update f.entries q node }

/-- The place at the end of a path's links, if there are fewer than `n`. -/
@[local grind =] def follow (f : Files P) : Nat → P → Option P
  | 0, _ => none
  | n + 1, p =>
    match f.entries (f.canon p) with
    | some (.link target) => f.follow n target
    | _ => some (f.canon p)

def maxLinks : Nat := 40

def target (f : Files P) (p : P) : Option P := f.follow maxLinks p

/-- A write goes through links, to what they name. -/
def writeText (f : Files P) (p : P) (content : Str) : Files P :=
  match f.target p with
  | some q => f.set q (some (.text content))
  | none => f

/-- A removal takes a link, not what it names. -/
def unlink (f : Files P) (p : P) : Files P := f.set (f.canon p) none

def held (f : Files P) (p : P) : Option (FileNode P) := (f.target p).bind f.entries

/-- Nothing is there to read; a link that leads nowhere may be. -/
def Absent (f : Files P) (p : P) : Prop := ∃ q, f.target p = some q ∧ f.entries q = none

def Regular (f : Files P) (p : P) : Prop :=
  f.entries (f.canon p) ≠ none ∧ ∀ t, f.entries (f.canon p) ≠ some (.link t)

/-! ## Links stay where they are -/

omit [DecidableEq P] in
theorem follow_of_not_link (h : ∀ t, f.entries (f.canon p) ≠ some (.link t)) (n : Nat) :
    f.follow (n + 1) p = some (f.canon p) := by
  rw [follow]
  split
  · rename_i t ht
    exact absurd ht (h t)
  · rfl

omit [DecidableEq P] in
theorem follow_not_link : ∀ {n p q}, f.follow n p = some q → ∀ t, f.entries q ≠ some (.link t)
  | 0, _, _, h, _ => by cases h
  | n + 1, p, q, h, t => by
    rw [follow] at h
    split at h
    · exact follow_not_link h t
    · rename_i hn
      cases h
      exact hn t

theorem follow_set (hold : ∀ t, f.entries q ≠ some (.link t))
    (hnew : ∀ t, node ≠ some (.link t)) : ∀ n p, (f.set q node).follow n p = f.follow n p
  | 0, _ => rfl
  | n + 1, p => by
    by_cases hq : f.canon p = q
    · have h1 : (f.set q node).entries ((f.set q node).canon p) = node := by simp [set, hq]
      rw [follow_of_not_link (by rw [h1]; exact hnew), follow_of_not_link (by rw [hq]; exact hold)]
      rfl
    · have h1 : (f.set q node).entries ((f.set q node).canon p) = f.entries (f.canon p) := update_of_ne hq _ _
      rw [follow, follow, h1]
      split
      · exact follow_set hold hnew n _
      · rfl

theorem writeText_some (h : f.target p = some q) (content : Str) :
    f.writeText p content = f.set q (some (.text content)) := by
  rw [writeText, h]

theorem writeText_none (h : f.target p = none) (content : Str) : f.writeText p content = f := by
  rw [writeText, h]

section

variable (f : Files P) (p : P)

theorem target_writeText (p' : P) (content : Str) : (f.writeText p content).target p' = f.target p' := by
  unfold writeText
  split
  · rename_i q hq
    exact follow_set (follow_not_link hq) (by simp) maxLinks p'
  · rfl

theorem canon_writeText (content : Str) : (f.writeText p content).canon = f.canon := by
  unfold writeText
  split <;> rfl

theorem writeText_writeText (partial_ content : Str) :
    (f.writeText p partial_).writeText p content = f.writeText p content := by
  have ht := target_writeText f p p partial_
  cases hq : f.target p with
  | none => rw [writeText_none (ht.trans hq), writeText_none hq, writeText_none hq]
  | some =>
    rw [writeText_some (ht.trans hq), writeText_some hq, writeText_some hq]
    simp only [set, update_idem]

theorem held_unlink : (f.unlink p).held p = none := by
  have hnone : (f.unlink p).entries ((f.unlink p).canon p) = none := update_self ..
  have ht : (f.unlink p).target p = some (f.canon p) :=
    follow_of_not_link (fun t h => by rw [hnone] at h; cases h) _
  rw [held, ht]
  exact hnone

end

/-- **A move may remove before it writes**: the file at `p` and the one written at `dest` are two. -/
theorem unlink_writeText_comm (hp : f.Regular p) (hd : f.Regular dest ∨ f.Absent dest)
    (hne : f.canon dest ≠ f.canon p) (content : Str) :
    (f.writeText dest content).unlink p = (f.unlink p).writeText dest content := by
  obtain ⟨q, hq, hqp⟩ : ∃ q, f.target dest = some q ∧ q ≠ f.canon p := by
    rcases hd with hd | ⟨q, hq, hnone⟩
    · exact ⟨f.canon dest, follow_of_not_link hd.2 _, hne⟩
    · exact ⟨q, hq, fun h => hp.1 (h ▸ hnone)⟩
  have hq' : (f.unlink p).target dest = some q := (follow_set hp.2 (by simp) maxLinks dest).trans hq
  rw [writeText_some hq, writeText_some hq']
  simp only [unlink, set, update_comm hqp]

end Files

/-! ## What application knows of a file system -/

/-- What is there before a change, as the delta records it: a text, or nothing to read. -/
def Files.Recorded (f : Files P) (p : P) : Option Str → Prop
  | some content => f.held p = some (.text content)
  | none => f.Absent p

omit [DecidableEq P] in
theorem Files.Recorded.not_absent (h : f.Recorded p (some content)) : ¬ f.Absent p := by
  rintro ⟨q, hq, hnone⟩
  simp [Files.Recorded, Files.held, hq, hnone] at h

/-- **The behaviour application relies on**, whatever fails: probes and reads change no file and are right when they
succeed; they say that nothing is there only when it is so.  A write or removal that succeeds has taken effect, and one
that fails has done nothing but, at most, the like. -/
structure Behaves {σ : Type} (fs : ExecutorFileSystem P σ) (files : σ → Files P) : Prop where
  getMetadata_files : ∀ s p, files (fs.getMetadata s p).1 = files s
  getMetadata_ok : ∀ s p metadata, (fs.getMetadata s p).2 = .ok metadata → metadata.isFile = true →
    metadata.isSymlink = false → (files s).Regular p
  getMetadata_notFound : ∀ s p e, (fs.getMetadata s p).2 = .error e → e.kind = .notFound → (files s).Absent p
  readFileText_files : ∀ s p, files (fs.readFileText s p).1 = files s
  readFileText_ok : ∀ s p content, (fs.readFileText s p).2 = .ok content → (files s).Recorded p (some content)
  readFileText_notFound : ∀ s p e, (fs.readFileText s p).2 = .error e → e.kind = .notFound → (files s).Recorded p none
  writeFile_ok : ∀ s p content, (fs.writeFile s p content).2 = .ok () →
    files (fs.writeFile s p content).1 = (files s).writeText p content
  writeFile_error : ∀ s p content e, (fs.writeFile s p content).2 = .error e →
    files (fs.writeFile s p content).1 = files s ∨
      ∃ partial_, files (fs.writeFile s p content).1 = (files s).writeText p partial_
  createDirectory_files : ∀ s p, files (fs.createDirectory s p).1 = files s
  remove_ok : ∀ s p, (fs.remove s p).2 = .ok () → files (fs.remove s p).1 = (files s).unlink p
  remove_error : ∀ s p e, (fs.remove s p).2 = .error e →
    files (fs.remove s p).1 = files s ∨ files (fs.remove s p).1 = (files s).unlink p

/-! ## A disk whose calls may fail -/

inductive FaultEffect
  | nothing
  | done
  | part (content : Str)

structure Fault where
  error : IoError
  effect : FaultEffect

structure DiskState (P : Type) where
  files : Files P
  isDir : P → Bool
  calls : Nat

section DiskFs

variable (ancestors : P → List P) (parent : P → Option P) (faults : Nat → Option Fault)

def DiskState.called (s : DiskState P) : DiskState P := { s with calls := s.calls + 1 }

/-- A probe that fails never claims that nothing is there. -/
def Fault.probeError (fault : Fault) : IoError :=
  if fault.error.kind = .notFound then { fault.error with kind := .other } else fault.error

def notFound : IoError := ⟨.notFound, "No such file or directory (os error 2)".toList⟩
def isADirectory : IoError := ⟨.other, "Is a directory (os error 21)".toList⟩
def tooManyLinks : IoError := ⟨.other, "Too many levels of symbolic links (os error 40)".toList⟩
def notADirectory : IoError := ⟨.other, "Not a directory (os error 20)".toList⟩
def invalidUtf8 : IoError := ⟨.invalidData, "stream did not contain valid UTF-8".toList⟩

def DiskState.isSymlink (s : DiskState P) (p : P) : Bool :=
  match s.files.entries (s.files.canon p) with
  | some (.link _) => true
  | _ => false

def DiskState.metadata (s : DiskState P) (p : P) : Except IoError FileMetadata :=
  match s.files.target p with
  | none => .error tooManyLinks
  | some q =>
    if s.isDir q then .ok ⟨true, false, s.isSymlink p⟩
    else match s.files.entries q with
      | none => .error notFound
      | some _ => .ok ⟨false, true, s.isSymlink p⟩

def DiskState.read (s : DiskState P) (p : P) : Except IoError Str :=
  match s.files.target p with
  | none => .error tooManyLinks
  | some q =>
    if s.isDir q then .error isADirectory
    else match s.files.entries q with
      | none => .error notFound
      | some (.text content) => .ok content
      | some _ => .error invalidUtf8

def DiskState.writeRefused (s : DiskState P) (p : P) : Option IoError :=
  match s.files.target p with
  | none => some tooManyLinks
  | some q =>
    if s.isDir q then some isADirectory
    else if s.files.entries q = none ∧ (parent q).all (fun d => s.isDir (s.files.canon d)) = false then some notFound
    else none

def DiskState.removeRefused (s : DiskState P) (p : P) : Option IoError :=
  if s.isDir (s.files.canon p) then some isADirectory
  else if s.files.entries (s.files.canon p) = none then some notFound
  else none

def diskFs : ExecutorFileSystem P (DiskState P) where
  getMetadata s p := (s.called, match faults s.calls with
    | some fault => .error fault.probeError
    | none => s.metadata p)
  readFileText s p := (s.called, match faults s.calls with
    | some fault => .error fault.probeError
    | none => s.read p)
  writeFile s p contents :=
    match faults s.calls with
    | some ⟨e, .nothing⟩ => (s.called, .error e)
    | some ⟨e, .done⟩ => ({ s.called with files := s.files.writeText p contents }, .error e)
    | some ⟨e, .part content⟩ => ({ s.called with files := s.files.writeText p content }, .error e)
    | none =>
      match s.writeRefused parent p with
      | some e => (s.called, .error e)
      | none => ({ s.called with files := s.files.writeText p contents }, .ok ())
  createDirectory s p :=
    let made := { s.called with isDir := fun d => s.isDir d || ((ancestors p).map s.files.canon).contains d }
    match faults s.calls with
    | some ⟨e, .nothing⟩ => (s.called, .error e)
    | some ⟨e, _⟩ => (made, .error e)
    | none =>
      if (ancestors p).any (fun a => (s.files.entries (s.files.canon a)).isSome) then (s.called, .error notADirectory)
      else (made, .ok ())
  remove s p :=
    match faults s.calls with
    | some ⟨e, .done⟩ => ({ s.called with files := s.files.unlink p }, .error e)
    | some ⟨e, _⟩ => (s.called, .error e)
    | none =>
      match s.removeRefused p with
      | some e => (s.called, .error e)
      | none => ({ s.called with files := s.files.unlink p }, .ok ())

variable {s : DiskState P}

omit [DecidableEq P] in
theorem DiskState.metadata_regular {metadata} (h : s.metadata p = .ok metadata)
    (hfile : metadata.isFile) (hlink : metadata.isSymlink = false) : s.files.Regular p := by
  have hnot : s.isSymlink p = false → ∀ t, s.files.entries (s.files.canon p) ≠ some (.link t) := by
    intro hs t ht
    simp [DiskState.isSymlink, ht] at hs
  cases hq : s.files.target p with
  | none => simp [DiskState.metadata, hq] at h
  | some q =>
  by_cases hd : s.isDir q
  · simp only [DiskState.metadata, hq, hd, if_true, Except.ok.injEq] at h
    simp [← h] at hfile
  cases he : s.files.entries q with
  | none => simp [DiskState.metadata, hq, hd, he] at h
  | some node =>
    simp only [DiskState.metadata, hq, hd, Bool.false_eq_true, if_false, he, Except.ok.injEq] at h
    rw [← h] at hlink
    have hl := hnot hlink
    cases hq.symm.trans (Files.follow_of_not_link hl _)
    exact ⟨by simp [he], hl⟩

omit [DecidableEq P] in
theorem DiskState.metadata_absent {e} (h : s.metadata p = .error e) (hk : e.kind = .notFound) : s.files.Absent p := by
  unfold DiskState.metadata at h
  split at h
  · cases h
    cases hk
  rename_i q hq
  split at h
  · cases h
  split at h
  · rename_i he
    exact ⟨q, hq, he⟩
  · cases h

omit [DecidableEq P] in
theorem DiskState.read_text (h : s.read p = .ok content) : s.files.Recorded p (some content) := by
  unfold DiskState.read at h
  split at h
  · cases h
  rename_i q hq
  split at h
  · cases h
  split at h
  · cases h
  · rename_i text he
    cases h
    simp [Files.Recorded, Files.held, hq, he]
  · cases h

omit [DecidableEq P] in
theorem DiskState.read_absent {e} (h : s.read p = .error e) (hk : e.kind = .notFound) : s.files.Recorded p none := by
  unfold DiskState.read at h
  split at h
  · cases h
    cases hk
  rename_i q hq
  split at h
  · cases h
    cases hk
  split at h
  · rename_i he
    exact ⟨q, hq, he⟩
  · cases h
  · cases h
    cases hk

theorem Fault.probeError_kind (fault : Fault) : fault.probeError.kind ≠ .notFound := by
  unfold Fault.probeError
  split
  · simp
  · assumption

theorem diskFs_behaves : Behaves (diskFs ancestors parent faults) DiskState.files where
  getMetadata_files := fun s p => rfl
  getMetadata_ok := fun s p metadata h => by
    simp only [diskFs] at h
    split at h
    · cases h
    · exact DiskState.metadata_regular h
  getMetadata_notFound := fun s p e h hk => by
    simp only [diskFs] at h
    split at h
    · cases h
      exact absurd hk (Fault.probeError_kind _)
    · exact DiskState.metadata_absent h hk
  readFileText_files := fun s p => rfl
  readFileText_ok := fun s p content h => by
    simp only [diskFs] at h
    split at h
    · cases h
    · exact DiskState.read_text h
  readFileText_notFound := fun s p e h hk => by
    simp only [diskFs] at h
    split at h
    · cases h
      exact absurd hk (Fault.probeError_kind _)
    · exact DiskState.read_absent h hk
  writeFile_ok := fun s p content h => by
    cases hf : faults s.calls with
    | some fault =>
      obtain ⟨e, effect⟩ := fault
      cases effect <;> simp [diskFs, hf] at h
    | none =>
      cases hr : s.writeRefused parent p with
      | some => simp [diskFs, hf, hr] at h
      | none => simp only [diskFs, hf, hr]
  writeFile_error := fun s p content e h => by
    cases hf : faults s.calls with
    | some fault =>
      obtain ⟨e, effect⟩ := fault
      cases effect with
      | nothing => exact .inl (by simp only [diskFs, hf, DiskState.called])
      | done => exact .inr ⟨content, by simp only [diskFs, hf]⟩
      | part part => exact .inr ⟨part, by simp only [diskFs, hf]⟩
    | none =>
      cases hr : s.writeRefused parent p with
      | some => exact .inl (by simp only [diskFs, hf, hr, DiskState.called])
      | none => simp [diskFs, hf, hr] at h
  createDirectory_files := fun s p => by
    simp only [diskFs]
    split
    · rfl
    · rfl
    · split <;> rfl
  remove_ok := fun s p h => by
    cases hf : faults s.calls with
    | some fault =>
      obtain ⟨e, effect⟩ := fault
      cases effect <;> simp [diskFs, hf] at h
    | none =>
      cases hr : s.removeRefused p with
      | some => simp [diskFs, hf, hr] at h
      | none => simp only [diskFs, hf, hr]
  remove_error := fun s p e h => by
    cases hf : faults s.calls with
    | some fault =>
      obtain ⟨e, effect⟩ := fault
      cases effect with
      | done => exact .inr (by simp only [diskFs, hf])
      | _ => exact .inl (by simp only [diskFs, hf, DiskState.called])
    | none =>
      cases hr : s.removeRefused p with
      | some => exact .inl (by simp only [diskFs, hf, hr, DiskState.called])
      | none => simp [diskFs, hf, hr] at h

end DiskFs

end Owc.Patch
