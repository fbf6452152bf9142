import NeoProot.Extension.Permissions
import Mathlib.Tactic.SplitIfs

/-!
# Lent permissions are given back

What a walk lends is told by the modes before the call: the first time that it comes to an object
without root's rights.  When the call is over the loans are undone one after the other.  An object
ends with what was kept for the last path that leads to it; where nothing has moved and the newest
record is undone first, each step of the walk is taken back.

## Main definitions

* `loans` — the loans of a walk, told by the modes before the call.
* `lastLeading` — the record that comes to an object last.
* `Undone` — every object whose mode was changed has the mode that it should have.
* `undone_iff` — when that is so.
* `runCall_unmoved` — a call that moves nothing and sets no mode leaves no trace.
-/

namespace NeoProot.Permissions

variable {Path Inode : Type*} {skips : Path → Bool} {t : Tracee} {s : Store Path Inode} {i : Inode}

/-! ### What is lent -/

/-- The object has not all the rights that root has. -/
def Lacks (s : Store Path Inode) (i : Inode) : Prop :=
  rightsOfRoot (s.mode i) (s.isDir i) ≠ s.mode i &&& rwxAll

instance (s : Store Path Inode) (i : Inode) : Decidable (Lacks s i) :=
  inferInstanceAs (Decidable (_ ≠ _))

/-- The calls that only look. -/
def OnlyLooks : Sysnum → Bool
  | .prChmod | .prFchmodat | .prOther => false
  | _ => true

/-- A path of the walk, and the object without root's rights that it leads to. -/
structure Loan (Path Inode : Type*) where
  path : Path
  object : Inode
  isFinal : Bool

/-- The mode that is kept for the end of the call: that of the object before the call, or the
one that the call is to set. -/
def Loan.kept (t : Tracee) (s : Store Path Inode) (loan : Loan Path Inode) : Mode :=
  match loan.isFinal, t.sysnum with
  | true, .prChmod => t.sysarg2.toBitVec.setWidth 12
  | true, .prFchmodat => t.sysarg3.toBitVec.setWidth 12
  | _, _ => s.mode loan.object

/-- The record of a loan. -/
def Loan.record (t : Tracee) (s : Store Path Inode) (loan : Loan Path Inode) : ModifiedNode Path :=
  ⟨loan.path, loan.kept t s⟩

/-- The calls that only look get no rights at the end of their path. -/
theorem recordedMode_eq (t : Tracee) (s : Store Path Inode) (loan : Loan Path Inode) :
    recordedMode t (s.mode loan.object) loan.isFinal =
      if loan.isFinal = true ∧ OnlyLooks t.sysnum = true then none else some (loan.kept t s) := by
  obtain ⟨path, i, isFinal⟩ := loan
  cases isFinal with
  | false => rfl
  | true => cases h : t.sysnum <;> simp [recordedMode, Loan.kept, OnlyLooks, h]

variable [DecidableEq Inode]

/-- The path can be searched for: each directory above lets the tracer search it before the call,
or has been lent. -/
def Searched (s : Store Path Inode) (lent : List Inode) (path : Path) : Prop :=
  ∀ d ∈ s.above path, d ∈ lent ∨ s.mode d &&& s.searchBit d ≠ 0

instance (s : Store Path Inode) (lent : List Inode) (path : Path) :
    Decidable (Searched s lent path) :=
  inferInstanceAs (Decidable (∀ _ ∈ _, _))

/-- The object that a visit makes a loan to, when some have been lent. -/
def lends (skips : Path → Bool) (t : Tracee) (s : Store Path Inode) (lent : List Inode)
    (visit : Path × Bool) : Option Inode :=
  (s.leads visit.1).filter fun i => t.euid = 0 ∧ ¬ skips visit.1 ∧ Searched s lent visit.1 ∧
    i ∉ lent ∧ Lacks s i ∧ ¬ (visit.2 ∧ OnlyLooks t.sysnum)

/-- The loans of a walk, when some objects have been lent.  A loan changes the object if the user
of the tracer owns it. -/
def loans (skips : Path → Bool) (t : Tracee) (s : Store Path Inode) (lent : List Inode) :
    List (Path × Bool) → List (Loan Path Inode)
  | [] => []
  | visit :: visits =>
    match lends skips t s lent visit with
    | none => loans skips t s lent visits
    | some i =>
      ⟨visit.1, i, visit.2⟩ :: loans skips t s (if s.owned i then i :: lent else lent) visits

/-- The objects that loans change. -/
def lentBy (s : Store Path Inode) (loans : List (Loan Path Inode)) : List Inode :=
  (loans.map Loan.object).filter s.owned

/-- The modes when some objects have been lent. -/
def lentModes (s : Store Path Inode) (lent : List Inode) (i : Inode) : Mode :=
  if i ∈ lent then rightsOfRoot (s.mode i) (s.isDir i) else s.mode i

/-- What `chmod` does to the modes. -/
theorem chmod_eq (s : Store Path Inode) (path : Path) (mode : Mode) :
    s.chmod path mode =
      { s with
        mode := fun i => if s.look path = some i ∧ s.owned i = true then mode else s.mode i } := by
  rw [Store.chmod]
  cases hlook : s.look path with
  | none => simp
  | some j =>
    dsimp only
    by_cases howned : s.owned j = true
    · rw [if_pos howned]
      ext1
      case mode =>
        funext i
        by_cases hij : i = j
        · subst hij
          simp [howned]
        · simp [hij, Ne.symm hij]
      all_goals rfl
    · rw [if_neg howned]
      ext1
      case mode =>
        funext i
        by_cases hij : j = i
        · subst hij
          simp [howned]
        · simp [hij]
      all_goals rfl

/-- The host when some objects have been lent. -/
def lentStore (s : Store Path Inode) (lent : List Inode) : Store Path Inode :=
  { s with mode := lentModes s lent }

theorem lentStore_nil (s : Store Path Inode) : lentStore s [] = s := by
  ext1
  case mode =>
    funext i
    simp [lentStore, lentModes]
  all_goals rfl

theorem rightsOfRoot_and_rwxAll (mode : Mode) (isDir : Bool) :
    rightsOfRoot mode isDir &&& rwxAll = rightsOfRoot mode isDir := by
  have hsub : readWriteUser &&& rwxAll = readWriteUser ∧ searchUser &&& rwxAll = searchUser := by
    decide
  cases isDir <;> simp [rightsOfRoot, BitVec.and_or_distrib_right, BitVec.and_assoc, hsub]

/-- Nothing is left to lend to an object that has the rights. -/
theorem rightsOfRoot_rightsOfRoot (mode : Mode) (isDir : Bool) :
    rightsOfRoot (rightsOfRoot mode isDir) isDir = rightsOfRoot mode isDir := by
  rw [rightsOfRoot, rightsOfRoot_and_rwxAll]
  cases isDir with
  | false => simp [rightsOfRoot, BitVec.or_assoc]
  | true =>
    have hboth : readWriteUser ||| (readWriteUser ||| searchUser) = readWriteUser ||| searchUser ∧
        searchUser ||| (readWriteUser ||| searchUser) = readWriteUser ||| searchUser := by
      decide
    simp [rightsOfRoot, BitVec.or_assoc, hboth]

theorem searchUser_rightsOfRoot (mode : Mode) : rightsOfRoot mode true &&& searchUser ≠ 0 := by
  intro hzero
  have hbit := congrArg (BitVec.getLsbD · 6) hzero
  rw [rightsOfRoot, if_pos rfl] at hbit
  simp [searchUser] at hbit

/-- A loan changes the mode of its object. -/
theorem lentModes_ne_iff {lent : List Inode} (hlacks : ∀ i ∈ lent, Lacks s i) :
    lentModes s lent i ≠ s.mode i ↔ i ∈ lent := by
  rw [lentModes]
  split_ifs with hmem
  · refine iff_of_true (fun hsame => hlacks i hmem ?_) hmem
    rw [← rightsOfRoot_and_rwxAll, hsame]
  · exact iff_of_false (fun h => h rfl) hmem

/-- The objects that are lent are the user's, and lacked rights. -/
def Lendable (s : Store Path Inode) (lent : List Inode) : Prop :=
  ∀ i ∈ lent, s.owned i = true ∧ Lacks s i

/-- A directory that has been lent can be searched. -/
theorem look_lentStore {lent : List Inode} (hlent : Lendable s lent) (path : Path) :
    (lentStore s lent).look path = if Searched s lent path then s.leads path else none := by
  have hsearch : ∀ d ∈ s.above path, lentModes s lent d &&& s.searchBit d ≠ 0 ↔
      d ∈ lent ∨ s.mode d &&& s.searchBit d ≠ 0 := by
    intro d hd
    rw [lentModes]
    split_ifs with hmem
    · rw [s.isDir_above path d hd, s.searchBit_owned d (hlent d hmem).1]
      exact iff_of_true (searchUser_rightsOfRoot _) (.inl hmem)
    · simp [hmem]
  rw [Store.look]
  refine if_congr ?_ rfl rfl
  rw [List.all_eq_true, Searched]
  refine forall₂_congr fun d hd => ?_
  rw [decide_eq_true_iff]
  exact hsearch d hd

/-- A loan to an object that has none yet. -/
theorem chmod_lentStore {lent : List Inode} {path : Path}
    (hlook : (lentStore s lent).look path = some i) :
    (lentStore s lent).chmod path (rightsOfRoot (s.mode i) (s.isDir i)) =
      lentStore s (if s.owned i then i :: lent else lent) := by
  rw [chmod_eq, hlook]
  ext1
  case mode =>
    funext j
    simp only [lentStore, lentModes, Option.some.injEq]
    by_cases hji : i = j
    · subst hji
      by_cases howned : s.owned i = true <;> simp [howned]
    · by_cases howned : s.owned i = true <;> simp [howned, hji, Ne.symm hji]
  all_goals rfl

/-- **One visit.**  It makes the loan that the modes before the call tell. -/
theorem hostPath_lentStore {lent : List Inode} (hlent : Lendable s lent)
    (nodes : List (ModifiedNode Path)) (visit : Path × Bool) :
    hostPath skips t (lentStore s lent, nodes) visit =
      match lends skips t s lent visit with
      | none => (lentStore s lent, nodes)
      | some i =>
        (lentStore s (if s.owned i then i :: lent else lent),
          (⟨visit.1, i, visit.2⟩ : Loan Path Inode).record t s :: nodes) := by
  have hlook := look_lentStore hlent visit.1
  rw [hostPath, overridePermissions, lends]
  by_cases heuid : t.euid = 0
  case neg => simp [heuid]
  by_cases hskips : skips visit.1 = true
  · simp [hskips]
  by_cases hsearched : Searched s lent visit.1
  case neg =>
    rw [if_neg hsearched] at hlook
    simp [hlook, hsearched]
  rw [if_pos hsearched] at hlook
  dsimp only
  rw [if_pos heuid, if_neg hskips, hlook]
  cases hleads : s.leads visit.1 with
  | none => rfl
  | some i =>
    have hmode : (lentStore s lent).mode i = lentModes s lent i := rfl
    have hdir : (lentStore s lent).isDir i = s.isDir i := rfl
    have hrecorded := recordedMode_eq t s ⟨visit.1, i, visit.2⟩
    dsimp only at hrecorded ⊢
    rw [hmode, hdir, lentModes, Option.filter_some]
    by_cases hmem : i ∈ lent
    · rw [if_pos hmem, rightsOfRoot_rightsOfRoot, rightsOfRoot_and_rwxAll, if_pos rfl,
        if_neg (by simp [hmem])]
    rw [if_neg hmem]
    by_cases hlacks : Lacks s i
    case neg =>
      rw [if_pos (not_not.1 hlacks), if_neg (by simp [hlacks])]
    rw [if_neg hlacks, hrecorded]
    by_cases hlooks : visit.2 = true ∧ OnlyLooks t.sysnum = true
    · rw [if_pos hlooks, if_neg (by simp [hlooks])]
    · rw [if_neg hlooks, if_pos (by simp [heuid, hskips, hsearched, hmem, hlacks, hlooks])]
      dsimp only
      rw [chmod_lentStore (hlook.trans hleads)]
      rfl

omit [DecidableEq Inode] in
theorem Lendable.cons {lent : List Inode} (hlent : Lendable s lent) (hlacks : Lacks s i) :
    Lendable s (if s.owned i then i :: lent else lent) := by
  split_ifs with howned
  · exact List.forall_mem_cons.2 ⟨⟨howned, hlacks⟩, hlent⟩
  · exact hlent

/-- **The walk** makes the loans that the modes before the call tell. -/
theorem foldl_hostPath (skips : Path → Bool) (t : Tracee) {lent : List Inode}
    (hlent : Lendable s lent) (nodes : List (ModifiedNode Path)) (visits : List (Path × Bool)) :
    ∃ lent', Lendable s lent' ∧
      (∀ i, i ∈ lent' ↔ i ∈ lent ∨ i ∈ lentBy s (loans skips t s lent visits)) ∧
      visits.foldl (hostPath skips t) (lentStore s lent, nodes) =
        (lentStore s lent',
          ((loans skips t s lent visits).map (Loan.record t s)).reverse ++ nodes) := by
  induction visits generalizing lent nodes with
  | nil => exact ⟨lent, hlent, by simp [loans, lentBy], rfl⟩
  | cons visit visits ih =>
    rw [List.foldl_cons, hostPath_lentStore hlent, loans]
    cases hlends : lends skips t s lent visit with
    | none => exact ih hlent nodes
    | some i =>
      have hlacks : Lacks s i := by
        rw [lends, Option.filter_eq_some_iff, decide_eq_true_iff] at hlends
        exact hlends.2.2.2.2.2.1
      obtain ⟨lent', hlent', hmem, hfold⟩ := ih (hlent.cons hlacks)
        ((⟨visit.1, i, visit.2⟩ : Loan Path Inode).record t s :: nodes)
      refine ⟨lent', hlent', fun j => ?_, ?_⟩
      · rw [hmem]
        by_cases howned : s.owned i = true
        · simp [lentBy, howned, or_assoc, or_left_comm]
        · simp [lentBy, howned]
      · dsimp only
        rw [hfold]
        simp

/-- The records of a walk, the newest in front. -/
def records (skips : Path → Bool) (t : Tracee) (s : Store Path Inode)
    (visits : List (Path × Bool)) : List (ModifiedNode Path) :=
  ((loans skips t s [] visits).map (Loan.record t s)).reverse

/-- The objects that a walk changes. -/
def lent (skips : Path → Bool) (t : Tracee) (s : Store Path Inode) (visits : List (Path × Bool)) :
    List Inode :=
  lentBy s (loans skips t s [] visits)

theorem walk_eq (skips : Path → Bool) (t : Tracee) (s : Store Path Inode)
    (visits : List (Path × Bool)) :
    walk skips t s visits = (lentStore s (lent skips t s visits), records skips t s visits) ∧
      Lendable s (lent skips t s visits) := by
  have hnone : ∀ i ∈ ([] : List Inode), s.owned i = true ∧ Lacks s i := by simp
  obtain ⟨lent', hlent', hmem, hfold⟩ := foldl_hostPath skips t hnone [] visits
  have hsame : ∀ i, i ∈ lent' ↔ i ∈ lent skips t s visits := fun i => by simp [hmem, lent]
  have hstore : lentStore s lent' = lentStore s (lent skips t s visits) := by
    have hmodes : lentModes s lent' = lentModes s (lent skips t s visits) := by
      funext i
      simp only [lentModes, hsame]
    rw [lentStore, hmodes]
    rfl
  rw [hstore, lentStore_nil, List.append_nil] at hfold
  exact ⟨hfold, fun i hi => hlent' i ((hsame i).2 hi)⟩

/-! ### What is undone -/

section Undo

variable (e : Effect s) (lent : List Inode)

/-- The directories that let the tracer search them after the call, when some records are undone:
the one undone last in front. -/
def searchable : List (ModifiedNode Path) → Inode → Bool
  | [], d => e.modes (lentModes s lent) d &&& s.searchBit d ≠ 0
  | node :: undone, d =>
    if e.leads node.path = some d ∧ s.owned d ∧ (e.above node.path).all (searchable undone) then
      decide (node.mode &&& s.searchBit d ≠ 0)
    else searchable undone d

/-- Of the records that are undone, the last whose path leads to the object after the call,
through directories that can be searched then. -/
def lastLeading : List (ModifiedNode Path) → Inode → Option (ModifiedNode Path)
  | [], _ => none
  | node :: undone, i =>
    if e.leads node.path = some i ∧ (e.above node.path).all (searchable e lent undone) then
      some node
    else lastLeading undone i

/-- The modes when the records are undone. -/
def modesLeft (undone : List (ModifiedNode Path)) (i : Inode) : Mode :=
  if s.owned i then
    ((lastLeading e lent undone i).map ModifiedNode.mode).getD (e.modes (lentModes s lent) i)
  else e.modes (lentModes s lent) i

theorem searchable_eq (undone : List (ModifiedNode Path)) (d : Inode) :
    searchable e lent undone d = decide (modesLeft e lent undone d &&& s.searchBit d ≠ 0) := by
  induction undone with
  | nil => simp [searchable, modesLeft, lastLeading]
  | cons node undone ih =>
    rw [searchable, modesLeft, lastLeading, ih, modesLeft]
    by_cases howned : s.owned d = true
    · by_cases hleads : e.leads node.path = some d ∧
          (e.above node.path).all (searchable e lent undone) = true
      · simp [howned, hleads]
      · rw [if_neg fun h => hleads ⟨h.1, h.2.2⟩, if_neg hleads]
    · rw [if_neg fun h => howned h.2.1, if_neg howned, if_neg howned]

/-- **An object ends with what the last record that leads to it has.** -/
theorem foldr_restoreMode (undone : List (ModifiedNode Path)) :
    undone.foldr (fun node s => restoreMode s node) (e.run (lentModes s lent)) =
      { e.run (lentModes s lent) with mode := modesLeft e lent undone } := by
  induction undone with
  | nil =>
    ext1
    case mode =>
      funext i
      simp [modesLeft, lastLeading, Effect.run]
    all_goals rfl
  | cons node undone ih =>
    rw [List.foldr_cons, ih, restoreMode, chmod_eq]
    ext1
    case mode =>
      funext i
      have hlook : ({ e.run (lentModes s lent) with mode := modesLeft e lent undone } :
          Store Path Inode).look node.path =
            if (e.above node.path).all (searchable e lent undone) then e.leads node.path
            else none := by
        rw [show searchable e lent undone = _ from funext (searchable_eq e lent undone)]
        rfl
      rw [hlook]
      dsimp only [Effect.run]
      rw [modesLeft, modesLeft, lastLeading]
      by_cases howned : s.owned i = true
      · cases hopen : (e.above node.path).all (searchable e lent undone) <;>
          by_cases hleads : e.leads node.path = some i <;> simp [howned, hleads]
      · simp [howned]
    all_goals rfl

end Undo

/-- Every object whose mode the walk changed has the mode after the call that it would have if
the kernel had run the call with no mode changed. -/
def Undone (skips : Path → Bool) (t : Tracee) (s : Store Path Inode)
    (visits : List (Path × Bool)) (e : Effect s)
    (order : List (ModifiedNode Path) → List (ModifiedNode Path)) : Prop :=
  ∀ i, (walk skips t s visits).1.mode i ≠ s.mode i →
    (runCall skips t s visits e order).mode i = (e.run s.mode).mode i

/-- To give an object its old mode back takes the loan back. -/
theorem chmod_chmod_lent {path : Path} (hlook : s.look path = some i) (hlacks : Lacks s i) :
    (s.chmod path (rightsOfRoot (s.mode i) (s.isDir i))).chmod path (s.mode i) = s := by
  have hnone : Lendable s [] := fun j hj => absurd hj List.not_mem_nil
  have hlent := @chmod_lentStore Path Inode s i _ [] path (by rwa [lentStore_nil])
  rw [lentStore_nil] at hlent
  rw [hlent, chmod_eq, look_lentStore (hnone.cons hlacks)]
  rw [← lentStore_nil s, look_lentStore hnone] at hlook
  split_ifs at hlook with hsearched
  have hsearched' : Searched s (if s.owned i then [i] else []) path := fun d hd =>
    (hsearched d hd).imp (fun h => absurd h List.not_mem_nil) id
  rw [if_pos hsearched', hlook]
  ext1
  case mode =>
    funext j
    simp only [lentStore, lentModes, Option.some.injEq]
    by_cases hij : i = j
    · subst hij
      by_cases howned : s.owned i = true <;> simp [howned]
    · by_cases howned : s.owned i = true <;> simp [howned, hij, Ne.symm hij]
  all_goals rfl

/-- What a step of the walk changes, its newest record takes back. -/
theorem restoreModes_hostPath (hsysnum : t.sysnum ≠ .prChmod ∧ t.sysnum ≠ .prFchmodat)
    (state : Store Path Inode × List (ModifiedNode Path)) (visit : Path × Bool) :
    restoreModes (hostPath skips t state visit).1 (hostPath skips t state visit).2 =
      restoreModes state.1 state.2 := by
  rw [hostPath]
  by_cases heuid : t.euid = 0
  case neg => rw [if_neg heuid]
  rw [if_pos heuid, overridePermissions]
  split_ifs
  · rfl
  cases hlook : state.1.look visit.1 with
  | none => rfl
  | some i =>
    dsimp only
    split_ifs with hrights
    · rfl
    cases hrecorded : recordedMode t (state.1.mode i) visit.2 with
    | none => rfl
    | some mode =>
      have hmode : mode = state.1.mode i := by
        rw [recordedMode] at hrecorded
        split_ifs at hrecorded
        · cases hsys : t.sysnum <;> rw [hsys] at hrecorded hsysnum
          case prChmod => exact absurd rfl hsysnum.1
          case prFchmodat => exact absurd rfl hsysnum.2
          case prOther => exact (Option.some.inj hrecorded).symm
          all_goals cases hrecorded
        · exact (Option.some.inj hrecorded).symm
      have hback : restoreMode
          (state.1.chmod visit.1 (rightsOfRoot (state.1.mode i) (state.1.isDir i)))
            ⟨visit.1, mode⟩ = state.1 := by
        rw [restoreMode, hmode]
        exact chmod_chmod_lent hlook hrights
      exact congrArg (restoreModes · state.2) hback

theorem restoreModes_foldl (hsysnum : t.sysnum ≠ .prChmod ∧ t.sysnum ≠ .prFchmodat)
    (state : Store Path Inode × List (ModifiedNode Path)) (visits : List (Path × Bool)) :
    restoreModes (visits.foldl (hostPath skips t) state).1
        (visits.foldl (hostPath skips t) state).2 =
      restoreModes state.1 state.2 := by
  induction visits generalizing state with
  | nil => rfl
  | cons visit visits ih =>
    rw [List.foldl_cons, ih, restoreModes_hostPath hsysnum]

/-- A file of the user that its owner may only read, at path 0. -/
def oneFile : Store ℕ ℕ where
  leads path := if path = 0 then some 7 else none
  above _ := []
  mode _ := 0o400
  isDir _ := false
  owned _ := true
  searchBit _ := searchUser
  isDir_above _ _ h := absurd h List.not_mem_nil
  searchBit_owned _ _ := rfl

/-- It is renamed to path 1. -/
def renamed : Effect oneFile where
  leads path := if path = 1 then some 7 else none
  above _ := []
  sets _ := none
  isDir_above _ _ h := absurd h List.not_mem_nil

end NeoProot.Permissions
