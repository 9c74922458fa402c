import StackMachine.Assembly.Link

/-!
# Links that succeed

A link is a fold over its files, and it succeeds when every file is accepted in the session that the
files in front of it leave.

* `foldl_cons_accepted`: the files of a link that succeeds are accepted one by one.
* `link_eq_ok_iff`, `link_eq_error_iff`: the program of a link is the image of the last session, if
  no file was rejected.
-/

namespace StackMachine.Assembly

variable {registry : Registry} {state : LinkState} {file : SourceFile} {files : List SourceFile}

theorem rejected_foldl (files : List SourceFile) (h : state.rejected = true) :
    (files.foldl LinkState.assemble state).rejected = true := by
  induction files generalizing state with
  | nil => exact h
  | cons file files ih =>
    rw [List.foldl_cons]
    exact ih (by simp [LinkState.assemble, h])

theorem foldl_cons_accepted
    (h : ((file :: files).foldl LinkState.assemble state).rejected = false) :
    (file.assemble state.session).accepted = true ∧
      (files.foldl LinkState.assemble (state.assemble file)).rejected = false := by
  rw [List.foldl_cons] at h
  refine ⟨?_, h⟩
  cases haccepted : (file.assemble state.session).accepted with
  | true => rfl
  | false =>
    have hfirst : (state.assemble file).rejected = true := by
      simp [LinkState.assemble, haccepted]
    rw [rejected_foldl files hfirst] at h
    cases h

theorem link_eq_ok_iff {p : Program} :
    (link registry files).outcome = .ok p ↔
      (files.foldl LinkState.assemble (.start registry)).rejected = false ∧
        (files.foldl LinkState.assemble (.start registry)).session.finish = p := by
  unfold link LinkState.finish
  dsimp only
  split
  · rename_i h
    simp [h]
  · rename_i h
    simp [h]

theorem link_eq_error_iff {e : LinkError} :
    (link registry files).outcome = .error e ↔
      (files.foldl LinkState.assemble (.start registry)).rejected = true ∧ .failed = e := by
  unfold link LinkState.finish
  dsimp only
  split
  · rename_i h
    simp [h]
  · rename_i h
    simp [h]

end StackMachine.Assembly
