/-
# Replacing a file whole

`write_atomic` of `src-tauri/src/atomic_file.rs`: the new content goes to a temporary
file next to the target, is synced, and takes the target's place by a rename.  Each
system call may fail, and a write may fail with a part of its bytes written (`WriteFaults`);
the rename replaces the file whole or leaves it as it was.

`writeAtomic_post`: a write that succeeds leaves the new content, one that fails leaves
every file as it was but for the temporary one.  `writeAtomic_succeeds`: without a failure
it succeeds.
-/

import HelmSsh.Effect
import HelmSsh.Errors
import Mathlib.Logic.Function.Basic
import Mathlib.Data.Nat.Notation

namespace HelmSsh

/-- The files and what is in them. -/
abbrev Files := String → Option (List UInt8)

/-- The system calls of a write that fail, with the texts of their errors. -/
structure WriteFaults where
  createParent : Option String := none
  openTemp : Option String := none
  /-- The bytes written before the error, and its text. -/
  writeAll : Option (ℕ × String) := none
  syncAll : Option String := none
  rename : Option String := none
  removeTemp : Bool := false

/-- A system call fails when it is made to. -/
def sysCall {σ : Type} (fault : Option String) : Effect AppError σ Unit :=
  .ofExcept (fault.elim (.ok ()) fun text => .error (.ioError text))

/-- `temp_path_for`, with the new id. -/
def tempPathFor (path id : String) : String :=
  path ++ (".helm-" ++ id ++ ".tmp")

/-- `OpenOptions::new().create_new(true).write(true).open(path)`. -/
def createNew (fault : Option String) (path : String) : Effect AppError Files Unit := do
  sysCall fault
  let existing ← Effect.gets fun files => files path
  sysCall (existing.map fun _ => "File exists (os error 17)")
  Effect.modify fun files => Function.update files path (some [])

/-- `File::write_all` on a new file. -/
def writeAll (fault : Option (ℕ × String)) (path : String) (bytes : List UInt8) :
    Effect AppError Files Unit := do
  let written := (fault.map Prod.fst).getD bytes.length
  Effect.modify fun files => Function.update files path (some (bytes.take written))
  sysCall (fault.map Prod.snd)

/-- `replace_file`: the source takes the place of the target. -/
def replaceFile (fault : Option String) (source target : String) : Effect AppError Files Unit := do
  sysCall fault
  let content ← Effect.gets fun files => files source
  Effect.modify fun files => Function.update (Function.update files target content) source none

/-- `fs::remove_file`, when its outcome is ignored. -/
def removeFile (fault : Bool) (path : String) : Effect AppError Files Unit :=
  Effect.modify fun files => if fault then files else Function.update files path none

/-- `write_atomic`. -/
def writeAtomic (faults : WriteFaults) (id path : String) (bytes : List UInt8) :
    Effect AppError Files Unit := do
  sysCall faults.createParent
  let tempPath := tempPathFor path id
  Effect.onError
    (do
      createNew faults.openTemp tempPath
      writeAll faults.writeAll tempPath bytes
      sysCall faults.syncAll
      replaceFile faults.rename tempPath path)
    (removeFile faults.removeTemp tempPath)

theorem tempPathFor_ne (path id : String) : tempPathFor path id ≠ path := by
  intro h
  have hlen := congrArg String.length h
  rw [tempPathFor, String.length_append, String.length_append, String.length_append] at hlen
  have hsuffix : ".tmp".length = 4 := rfl
  omega

/-- A system call leaves the state alone, and one that is not made to fail succeeds. -/
theorem sysCall_post {σ : Type} {fault : Option String} {s : σ} {ok : Unit → σ → Prop}
    {err : AppError → σ → Prop} (hok : fault = none → ok () s) (herr : ∀ e, err e s) :
    (sysCall fault).Post s ok err := by
  cases fault with
  | none => exact hok rfl
  | some text => exact herr _

/-- Only the file at `path` may differ. -/
def SameBut (path : String) (files files' : Files) : Prop :=
  ∀ other, other ≠ path → files' other = files other

theorem SameBut.update {path : String} {files files' : Files} (h : SameBut path files files')
    (content : Option (List UInt8)) : SameBut path files (Function.update files' path content) := by
  intro other hother
  rw [Function.update_of_ne hother]
  exact h other hother

theorem SameBut.trans {path : String} {files files' files'' : Files} (h : SameBut path files files')
    (h' : SameBut path files' files'') : SameBut path files files'' := by
  intro other hother
  rw [h' other hother]
  exact h other hother

theorem createNew_post {fault : Option String} {path : String} {files : Files} :
    (createNew fault path).Post files (fun _ files' => SameBut path files files')
      (fun _ files' => SameBut path files files') := by
  have hsame : SameBut path files files := fun _ _ => rfl
  refine .bind (sysCall_post (fun _ => ?_) fun _ => hsame)
  refine .bind (.gets ?_)
  refine .bind (sysCall_post (fun _ => ?_) fun _ => hsame)
  exact .modify (hsame.update _)

theorem writeAll_post {fault : Option (ℕ × String)} {path : String} {bytes : List UInt8}
    {files : Files} :
    (writeAll fault path bytes).Post files
      (fun _ files' => files' path = some bytes ∧ SameBut path files files')
      (fun _ files' => SameBut path files files') := by
  have hsame : SameBut path files files := fun _ _ => rfl
  refine .bind (.modify ?_)
  refine sysCall_post (fun hfault => ⟨?_, hsame.update _⟩) fun _ => hsame.update _
  rw [Function.update_self, Option.map_eq_none_iff.mp hfault]
  exact congrArg some List.take_length

theorem replaceFile_post {fault : Option String} {source target : String} {files : Files}
    (hne : source ≠ target) :
    (replaceFile fault source target).Post files
      (fun _ files' => files' target = files source ∧
        ∀ other, other ≠ target → other ≠ source → files' other = files other)
      (fun _ files' => files' = files) := by
  refine .bind (sysCall_post (fun _ => ?_) fun _ => rfl)
  refine .bind (.gets (.modify ⟨?_, fun other htarget hsource => ?_⟩))
  · rw [Function.update_of_ne hne.symm, Function.update_self]
  · rw [Function.update_of_ne hsource, Function.update_of_ne htarget]

/-- **A file is replaced whole or left as it was**, and but for it and the temporary file
nothing changes. -/
theorem writeAtomic_post {faults : WriteFaults} {id path : String} {bytes : List UInt8}
    {files : Files} :
    (writeAtomic faults id path bytes).Post files
      (fun _ files' => files' path = some bytes ∧
        ∀ other, other ≠ path → other ≠ tempPathFor path id → files' other = files other)
      (fun _ files' => SameBut (tempPathFor path id) files files') := by
  have hsame : SameBut (tempPathFor path id) files files := fun _ _ => rfl
  have hclean : ∀ files', SameBut (tempPathFor path id) files files' →
      SameBut (tempPathFor path id) files
        (removeFile faults.removeTemp (tempPathFor path id) files').2 := by
    intro files' h
    show SameBut _ files (if faults.removeTemp = true then files' else _)
    split_ifs
    · exact h
    · exact h.update none
  refine .bind (sysCall_post (fun _ => ?_) fun _ => hsame)
  refine .onError (.bind (createNew_post.mono (fun _ files₁ h₁ => ?_) fun _ => hclean))
  refine .bind (writeAll_post.mono (fun _ files₂ h₂ => ?_) fun _ files₂ h₂ => ?_)
  · have h₁₂ := h₁.trans h₂.2
    refine .bind (sysCall_post (fun _ => ?_) fun _ => hclean _ h₁₂)
    refine (replaceFile_post (tempPathFor_ne path id)).mono (fun _ files₃ h₃ => ?_) ?_
    · refine ⟨h₃.1.trans h₂.1, fun other hpath htemp => ?_⟩
      rw [h₃.2 other hpath htemp]
      exact h₁₂ other htemp
    · rintro _ files₃ rfl
      exact hclean _ h₁₂
  · exact hclean _ (h₁.trans h₂)

/-- **A write that meets no failure succeeds**, and leaves no temporary file. -/
theorem writeAtomic_succeeds {id path : String} {bytes : List UInt8} {files : Files}
    (hfree : files (tempPathFor path id) = none) {err : AppError → Files → Prop} :
    (writeAtomic {} id path bytes).Post files
      (fun _ files' => files' path = some bytes ∧ files' (tempPathFor path id) = none) err := by
  have hnone : ∀ {files : Files} {ok : Unit → Files → Prop} {err : AppError → Files → Prop},
      ok () files → (sysCall none).Post files ok err := fun h => h
  refine .bind (hnone (.onError (.bind (.bind (hnone (.bind (.gets ?_)))))))
  rw [hfree]
  refine .bind (hnone (.modify (.bind (.bind (.modify (hnone ?_))))))
  refine .bind (hnone (.bind (hnone (.bind (.gets (.modify ⟨?_, Function.update_self _ _ _⟩))))))
  rw [Function.update_of_ne (tempPathFor_ne path id).symm, Function.update_self,
    Function.update_self]
  exact congrArg some List.take_length

end HelmSsh
