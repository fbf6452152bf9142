import NeoProot.Path.Dirfd

/-!
# The errors of a translation

The functions of path translation give errors of their own and hand on those of the host.
None of their own is `EROFS`, which is what a read-only binding answers with, and `lstat` and
`readlink` do not answer so either.

## Main definitions

* `PathWorld.NeverErofs` — what that asks of the surroundings.
* `translatePath_ne_erofs` — a translation does not end with `EROFS`.
-/

namespace NeoProot

section Errors

variable {α β : Type} {w : PathWorld}

/-- An error handed on. -/
theorem ne_erofs_of_eq {x : Except Errno α} {e : Errno} (hx : x ≠ .error .erofs) (h : x = .error e) :
    (.error e : Except Errno β) ≠ .error .erofs := by
  intro heq
  rw [Except.error.injEq] at heq
  exact hx (heq ▸ h)

theorem appendPath_ne_erofs (result path : CStr) : appendPath result path ≠ .error .erofs := by
  simp only [appendPath]
  repeat' split
  all_goals simp

theorem joinPaths_ne_erofs (path1 path2 : CStr) : joinPaths path1 path2 ≠ .error .erofs := by
  simp only [joinPaths]
  split
  · rename_i h
    exact ne_erofs_of_eq (appendPath_ne_erofs [] path1) h
  · exact appendPath_ne_erofs _ path2

theorem substituteBinding_ne_erofs (t : Bindings) (side : Side) (path : CStr) :
    t.substituteBinding side path ≠ .error .erofs := by
  simp only [Bindings.substituteBinding]
  repeat' split
  all_goals simp

theorem nextComponents_ne_erofs (fuel : ℕ) (cursor : CStr) :
    ∀ x ∈ nextComponents fuel cursor, x ≠ .error .erofs := by
  have hnext : ∀ cursor, nextComponent cursor ≠ .error .erofs := by
    intro cursor
    simp only [nextComponent]
    repeat' split
    all_goals simp
  induction fuel generalizing cursor with
  | zero =>
    intro x hx
    rw [nextComponents] at hx
    split at hx
    · rename_i h
      rw [List.mem_singleton.1 hx]
      exact ne_erofs_of_eq (hnext cursor) h
    · simp [List.mem_singleton.1 hx]
  | succ fuel ih =>
    intro x hx
    rw [nextComponents] at hx
    split at hx
    · rename_i h
      rw [List.mem_singleton.1 hx]
      exact ne_erofs_of_eq (hnext cursor) h
    · simp only at hx
      split at hx
      · simp [List.mem_singleton.1 hx]
      · obtain rfl | hx := List.mem_cons.1 hx
        · simp
        · exact ih _ x hx

theorem readlinkProc_ne_erofs (tracee : Tracee) (getTracee : ℤ → Option Tracee)
    (base component : CStr) (comparison : Comparison) :
    readlinkProc tracee getTracee base component comparison ≠ .error .erofs := by
  simp only [readlinkProc]
  repeat' split
  all_goals simp

theorem readlinkProc2_ne_erofs (tracee : Tracee) (getTracee : ℤ → Option Tracee) (referer : CStr) :
    readlinkProc2 tracee getTracee referer ≠ .error .erofs := by
  simp only [readlinkProc2]
  repeat' split
  all_goals simp

theorem detranslatePath_ne_erofs (tracee : Tracee) (getTracee : ℤ → Option Tracee) (path : CStr)
    (referrer : Option CStr) : detranslatePath tracee getTracee path referrer ≠ .error .erofs := by
  have hfollowing : ∀ follow hasReferrer,
      detranslateFollowing tracee.fs follow hasReferrer path ≠ .error .erofs := by
    intro follow hasReferrer
    simp only [detranslateFollowing]
    repeat' split
    all_goals simp
  simp only [detranslatePath]
  split
  · simp
  · split
    · simp
    · split
      · simp
      · split
        · exact hfollowing _ _
        · split
          · split
            · rename_i h
              exact ne_erofs_of_eq (readlinkProc2_ne_erofs tracee _ _) h
            · simp
            · exact hfollowing _ _
          · split
            · split <;> exact hfollowing _ _
            · exact hfollowing _ _

theorem substituteBindingStat_ne_erofs (w : World) (fin : Finality) (path : CStr) :
    substituteBindingStat w fin path ≠ .error .erofs := by
  have hend : ∀ (found : Bool × FileType) (hostPath : CStr),
      (if ¬ fin.isFinal ∧ found.2 ≠ .directory ∧ found.2 ≠ .symlink then
        .error (if found.1 then .enoent else .enotdir)
      else .ok (decide (found.2 = .symlink), hostPath) : Except Errno (Bool × CStr)) ≠
        .error .erofs := by
    intro found hostPath
    split
    · split <;> simp
    · simp
  rw [substituteBindingStat]
  split
  · rename_i h
    exact ne_erofs_of_eq (substituteBinding_ne_erofs _ _ _) h
  · exact hend _ _

theorem linkContent_ne_erofs {w : World} (hread : ∀ path, w.readlink path ≠ .error .erofs)
    (fin : Finality) (guestPath comp hostPath : CStr) :
    linkContent w fin guestPath comp hostPath ≠ .error .erofs := by
  have hhost : readlinkHost w hostPath ≠ .error .erofs := by
    simp only [readlinkHost]
    split
    · rename_i h
      have hlink := ne_erofs_of_eq (β := LinkContent) (hread hostPath) h
      split
      · split
        · simp
        · exact hlink
      · exact hlink
    · split
      · rename_i h
        exact ne_erofs_of_eq (detranslatePath_ne_erofs _ _ _ _) h
      · simp
  simp only [linkContent]
  split
  · split
    · rename_i h
      exact ne_erofs_of_eq (readlinkProc_ne_erofs _ _ _ _ _) h
    · simp
    · split
      · simp
      · exact hhost
    · exact hhost
  · exact hhost

theorem canonicalizeLoop_ne_erofs {w : World} (hread : ∀ path, w.readlink path ≠ .error .erofs)
    {recurse : CStr → CStr → ℕ → Except Errno CStr}
    (hrec : ∀ path guestPath level, recurse path guestPath level ≠ .error .erofs)
    (derefFinal : Bool) (level : ℕ) {l : List (Except Errno (CStr × Finality))}
    (hl : ∀ x ∈ l, x ≠ .error .erofs) (followed : ℕ) (guestPath : CStr) (fin : Finality) :
    canonicalizeLoop w recurse derefFinal level followed guestPath fin l ≠ .error .erofs := by
  induction l generalizing followed guestPath fin with
  | nil => simp [canonicalizeLoop]
  | cons x l ih =>
    have ih' := ih fun y hy => hl y (by simp [hy])
    cases x with
    | error e =>
      rw [canonicalizeLoop]
      exact ne_erofs_of_eq (hl _ (by simp)) rfl
    | ok c =>
      rw [canonicalizeLoop]
      split
      · exact ih' _ _ _
      · split
        · exact ih' _ _ _
        · split
          · rename_i h
            exact ne_erofs_of_eq (joinPaths_ne_erofs _ _) h
          · split
            · rename_i h
              exact ne_erofs_of_eq (substituteBindingStat_ne_erofs _ _ _) h
            · extract_lets check
              split
              · simp
              · split
                · exact ih' _ _ _
                · split
                  · rename_i h
                    exact ne_erofs_of_eq (linkContent_ne_erofs hread _ _ _ _) h
                  · exact ih' _ _ _
                  · simp
                  · split
                    · rename_i h
                      exact ne_erofs_of_eq (hrec _ _ _) h
                    · split
                      · rename_i h
                        exact ne_erofs_of_eq (substituteBindingStat_ne_erofs _ _ _) h
                      · exact ih' _ _ _

theorem canonicalizeFrom_ne_erofs {w : World} (hread : ∀ path, w.readlink path ≠ .error .erofs)
    (fuel : ℕ) (userPath : CStr) (derefFinal : Bool) (guestPath : CStr) (level : ℕ) :
    canonicalizeFrom w fuel userPath derefFinal guestPath level ≠ .error .erofs := by
  induction fuel generalizing userPath derefFinal guestPath level with
  | zero => simp [canonicalizeFrom]
  | succ fuel ih =>
    rw [canonicalizeFrom]
    split
    · simp
    · split
      · simp
      · split
        · simp
        · simp only
          split
          · rename_i h
            refine ne_erofs_of_eq (canonicalizeLoop_ne_erofs hread (fun path guestPath level =>
              ih path true guestPath level) _ _ (nextComponents_ne_erofs _ _) _ _ _) h
          · simp
          · simp

/-- What the host and the temporary files of a translation answer. -/
structure PathWorld.NeverErofs (w : PathWorld) : Prop where
  readlink : ∀ path, w.readlink path ≠ .error .erofs
  procMapFile : ∀ entry, w.procMapFile entry ≠ .error .erofs

theorem translateProcPassthrough_ne_erofs (hw : w.NeverErofs) (path : CStr) :
    translateProcPassthrough w path ≠ .error .erofs := by
  simp only [translateProcPassthrough]
  split
  · split
    · rename_i h
      exact ne_erofs_of_eq (substituteBinding_ne_erofs _ _ _) h
    · simp
  · split
    · simp
    · split
      · simp
      · split
        · split
          · rename_i h
            exact ne_erofs_of_eq (hw.procMapFile _) h
          · split <;> simp
        · simp

theorem translateFrom_ne_erofs (hw : w.NeverErofs) (base userPath : CStr) (derefFinal : Bool) :
    translateFrom w base userPath derefFinal ≠ .error .erofs := by
  simp only [translateFrom]
  split
  · rename_i h
    exact ne_erofs_of_eq (joinPaths_ne_erofs _ _) h
  · split
    · exact translateProcPassthrough_ne_erofs hw _
    · split
      · exact translateProcPassthrough_ne_erofs hw _
      · split
        · rename_i h
          exact ne_erofs_of_eq (canonicalizeFrom_ne_erofs hw.readlink _ _ _ _ _) h
        · split
          · rename_i h
            exact ne_erofs_of_eq (substituteBinding_ne_erofs _ _ _) h
          · simp

theorem readlinkProcPidFd_ne_erofs (w : PathWorld) (fd : ℤ) :
    readlinkProcPidFd w fd ≠ .error .erofs := by
  simp only [readlinkProcPidFd]
  repeat' split
  all_goals simp

/-- A translation does not end with `EROFS`. -/
theorem translatePath_ne_erofs (hw : w.NeverErofs) (c : DirfdCache) (dirFd : Option ℤ)
    (userPath : CStr) (derefFinal : Bool) :
    (translatePath w c dirFd userPath derefFinal).1 ≠ .error .erofs := by
  simp only [translatePath]
  split
  · exact translateProcPassthrough_ne_erofs hw _
  · split
    · exact translateProcPassthrough_ne_erofs hw _
    · split
      · exact translateFrom_ne_erofs hw _ _ _
      · split
        · split
          · simp
          · exact translateFrom_ne_erofs hw _ _ _
        · split
          · rename_i h
            exact ne_erofs_of_eq (readlinkProcPidFd_ne_erofs w _) h
          · split
            · simp
            · split
              · exact translateFrom_ne_erofs hw _ _ _
              · split
                · simp
                · split
                  · rename_i h
                    exact ne_erofs_of_eq (detranslatePath_ne_erofs _ _ _ _) h
                  · exact translateFrom_ne_erofs hw _ _ _

end Errors
end NeoProot
