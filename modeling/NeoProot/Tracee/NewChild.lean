import NeoProot.Lib.Run
import NeoProot.Syscall.GuestCalls

/-!
# What a child shares with its parent

The kernel is not asked for new name-spaces: on entry of `clone` and `clone3` their flags are
taken out of the register or of the `clone_args` in memory, and those for mounts and for the
network are remembered in the parent.  When the child shows up, `new_child` reads the flags
again, where the guest may have changed them meanwhile, and consumes what is remembered.

A child may share the `FileSystemNameSpace` of its parent, have one of its own with the same
binding table, or one with a copy of the table; so name-spaces and tables are numbered.

## Main definitions

* `Views` — the tracees, with their name-spaces and binding tables.
* `Views.translateSyscallEnter`, `Views.newChild`, `Views.step` — what a call does.
* `Views.Born` — the child has what its call asked for.
* `Views.children_born_iff` — the runs in which each child has.
-/

namespace NeoProot.Clone
open Run

/-! ### Flags -/

/-- `CLONE_FS`. -/
def cloneFs : UInt64 := 0x200

/-- `CLONE_NEWNS`. -/
def cloneNewns : UInt64 := 0x20000

/-- `CLONE_NEWNET`. -/
def cloneNewnet : UInt64 := 0x40000000

/-- `CLONE_VFORK`. -/
def cloneVfork : UInt64 := 0x4000

/-- `CLONE_NS_MASK`: the flags for mounts, hosts, IPC, users, pids, the network, cgroups and
time. -/
def cloneNsMask : UInt64 :=
  cloneNewns ||| 0x04000000 ||| 0x08000000 ||| 0x10000000 ||| 0x20000000 ||| cloneNewnet |||
    0x02000000 ||| 0x80

/-- The flags contain a flag. -/
def Has (flags flag : UInt64) : Prop := flags &&& flag ≠ 0

instance (flags flag : UInt64) : Decidable (Has flags flag) :=
  inferInstanceAs (Decidable (_ ≠ _))

theorem Has.mask {flags flag : UInt64} (hflag : cloneNsMask &&& flag = flag)
    (h : Has flags flag) : Has flags cloneNsMask := by
  intro hnone
  apply h
  rw [← hflag, ← UInt64.and_assoc, hnone, UInt64.zero_and]

theorem has_strip (flags : UInt64) :
    Has (flags &&& ~~~cloneNsMask) cloneFs ↔ Has flags cloneFs := by
  have hflag : ~~~cloneNsMask &&& cloneFs = cloneFs := by decide
  rw [Has, Has, UInt64.and_assoc, hflag]

/-- What is `left` from other calls does no harm where this one has `asked` for the same. -/
theorem unmixed_logic (left asked net seen given : Prop) :
    ((left ∨ asked ↔ asked) ∧ net ∧ (seen ∧ ¬ left ∧ ¬ asked ↔ given ∧ ¬ asked)) ↔
      (left → asked) ∧ net ∧ (asked ∨ (seen ↔ given)) := by
  tauto

/-! ### Calls and children -/

/-- A `FileSystemNameSpace`, with the number of its binding table. -/
structure Space where
  bindings : ℕ
  cwd : CStr
  cwdAliasPrefix : Option CStr
  procUidMap : Option CStr
  procGidMap : Option CStr
  procSetgroups : Option CStr
  deriving DecidableEq, Repr

/-- A tracee, with the number of its name-space. -/
structure Cloner where
  fs : ℕ
  cloneStrippedNewns : Bool
  cloneStrippedNewnet : Bool
  fakeNetns : Bool
  deriving DecidableEq, Repr

/-- The tracees, and what they share. -/
structure Views where
  tables : List Bindings
  spaces : List Space
  tracees : List Cloner
  deriving DecidableEq, Repr

/-- A call that makes a process.  The arguments of the last `clone3` cannot be read. -/
inductive ProcessCall
  | clone (flags : UInt64)
  | clone3 (flags : UInt64)
  | fork
  | vfork
  | clone3Fault
  deriving DecidableEq, Repr

/-- What becomes of the call: the kernel refuses it, or a child shows up, when `word` is where
`clone3` has its flags. -/
inductive Outcome
  | refused
  | child (word : UInt64)
  deriving DecidableEq, Repr

/-- What a tracee does.  The last one stands for the calls that change the binding table. -/
inductive ViewsOp
  | call (i : ℕ) (call : ProcessCall) (outcome : Outcome)
  | unshare (i : ℕ) (flags : UInt64)
  | mount (i : ℕ) (table : Bindings)
  deriving DecidableEq, Repr

/-- The position of the tracee that takes a step. -/
def ViewsOp.tracee : ViewsOp → ℕ
  | .call i _ _ | .unshare i _ | .mount i _ => i

/-- The flags that the guest gives to a call. -/
def ProcessCall.flags : ProcessCall → UInt64
  | .clone flags | .clone3 flags => flags
  | .vfork => cloneVfork
  | .fork | .clone3Fault => 0

/-- The flags of a call when they are read once more: those of `clone3` are in memory. -/
def ProcessCall.reread (word : UInt64) : ProcessCall → UInt64
  | .clone3 _ => word
  | call => call.flags

/-- The flags are remembered and taken out. -/
def Cloner.strip (t : Cloner) (flags : UInt64) : Cloner × UInt64 :=
  if Has flags cloneNsMask then
    ({ t with
        cloneStrippedNewns := t.cloneStrippedNewns || decide (Has flags cloneNewns)
        cloneStrippedNewnet := t.cloneStrippedNewnet || decide (Has flags cloneNewnet) },
      flags &&& ~~~cloneNsMask)
  else (t, flags)

/-- `translate_syscall_enter`. -/
def Cloner.translateSyscallEnter (t : Cloner) : ProcessCall → Cloner × ProcessCall
  | .clone flags => ((t.strip flags).1, .clone (t.strip flags).2)
  | .clone3 flags => ((t.strip flags).1, .clone3 (t.strip flags).2)
  | call => (t, call)

/-- The parent when `new_child` is done with it. -/
def Cloner.consume (parent : Cloner) : Cloner :=
  { parent with cloneStrippedNewns := false, cloneStrippedNewnet := false }

/-- The child of a tracee, in a name-space. -/
def Cloner.child (parent : Cloner) (fs : ℕ) : Cloner :=
  ⟨fs, false, false, parent.fakeNetns || parent.cloneStrippedNewnet⟩

/-- The flags that `new_child` goes by: those of the event, unless the call has its own. -/
def ProcessCall.cloneFlags (word : UInt64) : ProcessCall → UInt64
  | .clone flags => flags
  | .clone3 _ => word
  | .vfork => cloneVfork
  | .fork | .clone3Fault => 0

namespace Views

/-- A tracer with its first tracee. -/
def start (table : Bindings) (fs : Space) : Views :=
  ⟨[table], [{ fs with bindings := 0 }], [⟨0, false, false, false⟩]⟩

/-- `new_child`, for the tracee at a position. -/
def newChild (s : Views) (i : ℕ) (parent : Cloner) (cloneFlags : UInt64) : Views :=
  match s.spaces[parent.fs]? with
  | none => s
  | some fs =>
    if Has cloneFlags cloneFs ∧ parent.cloneStrippedNewns = false then
      ⟨s.tables, s.spaces, s.tracees.set i parent.consume ++ [parent.child parent.fs]⟩
    else
      let tracees := s.tracees.set i parent.consume ++ [parent.child s.spaces.length]
      if parent.cloneStrippedNewns then
        match s.tables[fs.bindings]? with
        | none => s
        | some table =>
          ⟨s.tables ++ [table.copyNamespace],
            s.spaces ++ [{ fs with bindings := s.tables.length }], tracees⟩
      else ⟨s.tables, s.spaces ++ [fs], tracees⟩

/-- `unshare_file_system_namespace`. -/
def unshareFileSystemNamespace (s : Views) (i : ℕ) (t : Cloner) : Views :=
  match s.spaces[t.fs]? with
  | none => s
  | some source =>
    match s.tables[source.bindings]? with
    | none => s
    | some table =>
      ⟨s.tables ++ [table.copyNamespace], s.spaces ++ [{ source with bindings := s.tables.length }],
        s.tracees.set i { t with fs := s.spaces.length }⟩

/-- `unshare`. -/
def unshare (s : Views) (i : ℕ) (t : Cloner) (flags : UInt64) : Views :=
  let s := if Has flags cloneNewns then s.unshareFileSystemNamespace i t else s
  if Has flags cloneNewnet then
    { s with tracees := s.tracees.modify i fun t => { t with fakeNetns := true } }
  else s

/-- A step of a tracee. -/
def stepOf (s : Views) (t : Cloner) : ViewsOp → Views
  | .call _ .clone3Fault _ => s
  | .call i call .refused => { s with tracees := s.tracees.set i (t.translateSyscallEnter call).1 }
  | .call i call (.child word) =>
    let (t, call) := t.translateSyscallEnter call
    s.newChild i t (call.cloneFlags word)
  | .unshare i flags => s.unshare i t flags
  | .mount _ table =>
    match s.spaces[t.fs]? with
    | none => s
    | some fs => { s with tables := s.tables.set fs.bindings table }

/-- One step. -/
def step (s : Views) (op : ViewsOp) : Views :=
  match s.tracees[op.tracee]? with
  | none => s
  | some t => s.stepOf t op

end Views

/-! ### The entry of a call -/

theorem Cloner.strip_fst (t : Cloner) (flags : UInt64) :
    (t.strip flags).1 = { t with
      cloneStrippedNewns := t.cloneStrippedNewns || decide (Has flags cloneNewns)
      cloneStrippedNewnet := t.cloneStrippedNewnet || decide (Has flags cloneNewnet) } := by
  unfold strip
  split
  · rfl
  · rename_i hnone
    have hns : ¬ Has flags cloneNewns := fun h => hnone (h.mask (by decide))
    have hnet : ¬ Has flags cloneNewnet := fun h => hnone (h.mask (by decide))
    rw [decide_eq_false hns, decide_eq_false hnet, Bool.or_false, Bool.or_false]

theorem Cloner.has_strip_snd (t : Cloner) (flags : UInt64) :
    Has (t.strip flags).2 cloneFs ↔ Has flags cloneFs := by
  unfold strip
  split
  · exact has_strip flags
  · exact Iff.rfl

/-- On entry every call that can be read adds its requests to those that are remembered. -/
theorem Cloner.translateSyscallEnter_fst (t : Cloner) (call : ProcessCall) :
    (t.translateSyscallEnter call).1 = { t with
      cloneStrippedNewns := t.cloneStrippedNewns || decide (Has call.flags cloneNewns)
      cloneStrippedNewnet := t.cloneStrippedNewnet || decide (Has call.flags cloneNewnet) } := by
  have hnone : ∀ flags, ¬ Has flags cloneNewns → ¬ Has flags cloneNewnet →
      t = { t with
        cloneStrippedNewns := t.cloneStrippedNewns || decide (Has flags cloneNewns)
        cloneStrippedNewnet := t.cloneStrippedNewnet || decide (Has flags cloneNewnet) } := by
    intro flags hns hnet
    rw [decide_eq_false hns, decide_eq_false hnet, Bool.or_false, Bool.or_false]
  cases call with
  | clone flags => exact t.strip_fst flags
  | clone3 flags => exact t.strip_fst flags
  | fork => exact hnone 0 (by decide) (by decide)
  | vfork => exact hnone cloneVfork (by decide) (by decide)
  | clone3Fault => exact hnone 0 (by decide) (by decide)

/-- `new_child` finds `CLONE_FS` as the guest gave it, but for `clone3` as it is in memory. -/
theorem Cloner.has_cloneFlags (t : Cloner) (call : ProcessCall) (word : UInt64) :
    Has ((t.translateSyscallEnter call).2.cloneFlags word) cloneFs ↔
      Has (call.reread word) cloneFs := by
  cases call with
  | clone flags => exact t.has_strip_snd flags
  | clone3 flags => exact Iff.rfl
  | fork => exact Iff.rfl
  | vfork => exact Iff.rfl
  | clone3Fault => exact Iff.rfl

/-- Before the call, nothing that an earlier one asked for is still remembered, unless this one
asks for it as well; and where `clone3` has its flags, `CLONE_FS` stays as the kernel saw it. -/
def Cloner.Unmixed (t : Cloner) (call : ProcessCall) (word : UInt64) : Prop :=
  (t.cloneStrippedNewns = true → Has call.flags cloneNewns) ∧
    (t.cloneStrippedNewnet = true → t.fakeNetns = true ∨ Has call.flags cloneNewnet) ∧
    (Has call.flags cloneNewns ∨ (Has (call.reread word) cloneFs ↔ Has call.flags cloneFs))

instance (t : Cloner) (call : ProcessCall) (word : UInt64) : Decidable (t.Unmixed call word) :=
  inferInstanceAs (Decidable (_ ∧ _ ∧ _))

namespace Views

/-! ### What a child has -/

/-- The name-space of a tracee. -/
def fsOf (s : Views) (i : ℕ) : Option ℕ := s.tracees[i]?.map (·.fs)

/-- The binding table of a tracee. -/
def tableOf (s : Views) (i : ℕ) : Option ℕ :=
  (s.fsOf i).bind fun fs => s.spaces[fs]?.map (·.bindings)

/-- The bindings of a tracee. -/
def bindingsOf (s : Views) (i : ℕ) : Option Bindings := (s.tableOf i).bind (s.tables[·]?)

/-- Whether a tracee has a network of its own. -/
def fakeNetnsOf (s : Views) (i : ℕ) : Option Bool := s.tracees[i]?.map (·.fakeNetns)

/-- No other tracee has the table of this one. -/
def Private (s : Views) (i : ℕ) : Prop := ∀ j, j ≠ i → s.tableOf j ≠ s.tableOf i

/-- The child `n` of the tracee `i`, which called with these flags, has what it asked for. -/
structure Born (s : Views) (i : ℕ) (flags : UInt64) (n : ℕ) (s' : Views) : Prop where
  isPrivate : s'.Private n ↔ Has flags cloneNewns
  bindings : s'.bindingsOf n =
    if Has flags cloneNewns then (s.bindingsOf i).map (·.copyNamespace) else s.bindingsOf i
  fakeNetns : s'.fakeNetnsOf n =
    (s.fakeNetnsOf i).map fun fake => fake || decide (Has flags cloneNewnet)
  fs : s'.fsOf n = s.fsOf i ↔ Has flags cloneFs ∧ ¬ Has flags cloneNewns

/-- The children of a step have what their calls asked for. -/
def BornRight (s : Views) : ViewsOp → Prop
  | .call _ .clone3Fault _ | .call _ _ .refused | .unshare _ _ | .mount _ _ => True
  | .call i call (.child word) =>
    i < s.tracees.length →
      s.Born i call.flags s.tracees.length (s.step (.call i call (.child word)))

/-- The calls that make a child are not mixed up with others of their tracees. -/
def Unmixed (s : Views) : ViewsOp → Prop
  | .call _ .clone3Fault _ | .call _ _ .refused | .unshare _ _ | .mount _ _ => True
  | .call i call (.child word) => ∀ t ∈ s.tracees[i]?, t.Unmixed call word

/-- Numbers are those of name-spaces and tables. -/
structure Valid (s : Views) : Prop where
  spaces : ∀ t ∈ s.tracees, t.fs < s.spaces.length
  tables : ∀ fs ∈ s.spaces, fs.bindings < s.tables.length

variable {s : Views} {i : ℕ} {t : Cloner}

theorem valid_start (table : Bindings) (fs : Space) : Valid (start table fs) := by
  constructor
  · intro t ht
    rw [List.mem_singleton.1 ht]
    exact Nat.one_pos
  · intro fs' hfs
    rw [List.mem_singleton.1 hfs]
    exact Nat.one_pos

/-- A tracee has a name-space, and that has a table. -/
theorem Valid.found (h : Valid s) (ht : t ∈ s.tracees) :
    ∃ fs table, s.spaces[t.fs]? = some fs ∧ s.tables[fs.bindings]? = some table := by
  have hfs := h.spaces t ht
  have htable := h.tables _ (List.getElem_mem hfs)
  exact ⟨_, _, List.getElem?_eq_getElem hfs, List.getElem?_eq_getElem htable⟩

theorem Valid.tableOf_lt (h : Valid s) {n : ℕ} (hn : s.tableOf i = some n) :
    n < s.tables.length := by
  simp only [tableOf, fsOf, Option.bind_eq_some_iff, Option.map_eq_some_iff] at hn
  obtain ⟨_, ⟨t, ht, rfl⟩, fs, hfs, rfl⟩ := hn
  exact h.tables fs (List.mem_of_getElem? hfs)

/-- Tracees that keep their numbers keep them valid when name-spaces and tables are added. -/
theorem Valid.extend (h : Valid s) {tables : List Bindings} {spaces : List Space}
    {tracees : List Cloner} (hspaces : ∀ fs ∈ spaces, fs.bindings < (s.tables ++ tables).length)
    (htracees : ∀ t ∈ tracees, t.fs < (s.spaces ++ spaces).length) :
    Valid ⟨s.tables ++ tables, s.spaces ++ spaces, tracees⟩ := by
  refine ⟨htracees, fun fs hfs => ?_⟩
  obtain hold | hnew := List.mem_append.1 hfs
  · have := h.tables fs hold
    rw [List.length_append]
    omega
  · exact hspaces fs hnew

/-- The tracees of `s` with their name-spaces, the one at `i` changed otherwise, and one more. -/
theorem getElem?_adopt (ht : s.tracees[i]? = some t) (parent child : Cloner) (j : ℕ) :
    (s.tracees.set i parent ++ [child])[j]? =
      if j = s.tracees.length then some child
      else if j = i then some parent else s.tracees[j]? := by
  have hi : i < s.tracees.length := (List.getElem?_eq_some_iff.1 ht).1
  by_cases hj : j = s.tracees.length
  · rw [if_pos hj, List.getElem?_append_right (by rw [List.length_set]; omega), List.length_set, hj,
      Nat.sub_self]
    rfl
  · rw [if_neg hj]
    by_cases hlt : j < s.tracees.length
    · rw [List.getElem?_append_left (by rw [List.length_set]; exact hlt), List.getElem?_set]
      by_cases hji : j = i
      · rw [if_pos hji.symm, if_pos hi, if_pos hji]
      · rw [if_neg (Ne.symm hji), if_neg hji]
    · have hnone : (s.tracees.set i parent ++ [child])[j]? = none := by
        apply List.getElem?_eq_none
        rw [List.length_append, List.length_set, List.length_singleton]
        omega
      rw [hnone, if_neg (by omega), List.getElem?_eq_none (by omega)]

section Adopt

variable {tables : List Bindings} {spaces : List Space} {parent : Cloner} {n : ℕ}

theorem fsOf_adopt (ht : s.tracees[i]? = some t) (hparent : parent.fs = t.fs) (j : ℕ) :
    fsOf ⟨tables, spaces, s.tracees.set i parent.consume ++ [parent.child n]⟩ j =
      if j = s.tracees.length then some n else s.fsOf j := by
  simp only [fsOf, getElem?_adopt ht]
  split
  · rfl
  · split
    · rename_i hji
      rw [hji, ht]
      exact congrArg some hparent
    · rfl

/-- The other tracees keep their tables. -/
theorem tableOf_adopt (h : Valid s) (ht : s.tracees[i]? = some t) (hparent : parent.fs = t.fs)
    {j : ℕ} (hj : j ≠ s.tracees.length) :
    tableOf ⟨tables, s.spaces ++ spaces, s.tracees.set i parent.consume ++ [parent.child n]⟩ j =
      s.tableOf j := by
  rw [tableOf, fsOf_adopt ht hparent, if_neg hj, tableOf, fsOf]
  cases hold : s.tracees[j]? with
  | none => rfl
  | some told =>
    have hlt := h.spaces told (List.mem_of_getElem? hold)
    simp only [Option.map_some, Option.bind_some]
    rw [List.getElem?_append_left hlt]

theorem valid_adopt (h : Valid s) (ht : t ∈ s.tracees) (hparent : parent.fs = t.fs)
    (hspaces : ∀ fs ∈ spaces, fs.bindings < (s.tables ++ tables).length)
    (hn : n < (s.spaces ++ spaces).length) :
    Valid ⟨s.tables ++ tables, s.spaces ++ spaces,
      s.tracees.set i parent.consume ++ [parent.child n]⟩ := by
  apply h.extend hspaces
  intro u hu
  have hlength : (s.spaces ++ spaces).length = s.spaces.length + spaces.length :=
    List.length_append
  obtain hu | hu := List.mem_append.1 hu
  · obtain hold | rfl := List.mem_or_eq_of_mem_set hu
    · have := h.spaces u hold
      omega
    · have := h.spaces t ht
      change parent.fs < _
      omega
  · rw [List.mem_singleton.1 hu]
    exact hn

/-- What the next tracee has of one at `i`: its name-space if it is `shared`, and a copy of its
table if its own request was `stripped`. -/
structure Adopted (s : Views) (i : ℕ) (shared stripped fake : Bool) (s' : Views) : Prop where
  others : ∀ j, j ≠ s.tracees.length → s'.tableOf j = s.tableOf j
  table : s'.tableOf s.tracees.length =
    if stripped = true then some s.tables.length else s.tableOf i
  bindings : s'.bindingsOf s.tracees.length =
    if stripped = true then (s.bindingsOf i).map (·.copyNamespace) else s.bindingsOf i
  fs : s'.fsOf s.tracees.length = s.fsOf i ↔ shared = true
  fakeNetns : s'.fakeNetnsOf s.tracees.length = some fake

theorem adopted_adopt {shared stripped : Bool} {fs : Space} {table : Bindings} (h : Valid s)
    (ht : s.tracees[i]? = some t) (hparent : parent.fs = t.fs)
    (hfs : (s.spaces ++ spaces)[n]? = some fs)
    (htable : (s.tables ++ tables)[fs.bindings]? = some table)
    (hnumber : some fs.bindings = if stripped = true then some s.tables.length else s.tableOf i)
    (hcopy : some table =
      if stripped = true then (s.bindingsOf i).map (·.copyNamespace) else s.bindingsOf i)
    (hshared : n = t.fs ↔ shared = true) :
    Adopted s i shared stripped (parent.fakeNetns || parent.cloneStrippedNewnet)
      ⟨s.tables ++ tables, s.spaces ++ spaces,
        s.tracees.set i parent.consume ++ [parent.child n]⟩ := by
  have hown : tableOf ⟨s.tables ++ tables, s.spaces ++ spaces,
      s.tracees.set i parent.consume ++ [parent.child n]⟩ s.tracees.length =
        some fs.bindings := by
    rw [tableOf, fsOf_adopt ht hparent, if_pos rfl, Option.bind_some, hfs, Option.map_some]
  refine ⟨fun j hj => tableOf_adopt h ht hparent hj, hown.trans hnumber, ?_, ?_, ?_⟩
  · rw [bindingsOf, hown, Option.bind_some, htable, hcopy]
  · rw [fsOf_adopt ht hparent, if_pos rfl, fsOf, ht, Option.map_some, Option.some.injEq, hshared]
  · rw [fakeNetnsOf, getElem?_adopt ht, if_pos rfl, Option.map_some]
    rfl

end Adopt

/-- `new_child` consumes what is remembered in `parent`. -/
theorem adopted_newChild (h : Valid s) (ht : s.tracees[i]? = some t) {parent : Cloner}
    (hparent : parent.fs = t.fs) (flags : UInt64) :
    Valid (s.newChild i parent flags) ∧
    Adopted s i (decide (Has flags cloneFs) && !parent.cloneStrippedNewns)
      parent.cloneStrippedNewns (parent.fakeNetns || parent.cloneStrippedNewnet)
      (s.newChild i parent flags) := by
  have hmem := List.mem_of_getElem? ht
  obtain ⟨fs, table, hfs, htable⟩ := h.found hmem
  have hlt := h.spaces t hmem
  have htablelt := h.tables fs (List.mem_of_getElem? hfs)
  have hown : s.tableOf i = some fs.bindings := by
    rw [tableOf, fsOf, ht, Option.map_some, Option.bind_some, hfs, Option.map_some]
  have hbindings : s.bindingsOf i = some table := by
    rw [bindingsOf, hown, Option.bind_some, htable]
  have hnew : s.spaces.length ≠ t.fs := by omega
  have hlast : s.spaces.length < (s.spaces ++ [fs]).length := by
    rw [List.length_append]
    exact Nat.lt_succ_self _
  have htables : s.tables = s.tables ++ [] := (List.append_nil _).symm
  have hspaces : s.spaces = s.spaces ++ [] := (List.append_nil _).symm
  rw [← hparent] at hfs
  simp only [newChild, hfs, htable]
  cases hstripped : parent.cloneStrippedNewns with
  | true =>
    rw [if_neg (fun hboth => absurd hboth.2 (by decide)), if_pos rfl]
    constructor
    · refine valid_adopt h hmem hparent (fun fs' hfs' => ?_) ?_
      · rw [List.mem_singleton.1 hfs', List.length_append]
        exact Nat.lt_succ_self _
      · rw [List.length_append]
        exact Nat.lt_succ_self _
    · refine adopted_adopt h ht hparent List.getElem?_concat_length List.getElem?_concat_length rfl
        ?_ ?_
      · rw [if_pos rfl, hbindings, Option.map_some]
      · exact iff_of_false hnew (by rw [Bool.not_true, Bool.and_false]; decide)
  | false =>
    rw [Bool.not_false, Bool.and_true]
    by_cases hshared : Has flags cloneFs
    · rw [if_pos ⟨hshared, rfl⟩, htables, hspaces]
      constructor
      · refine valid_adopt h hmem hparent (fun fs' hfs' => absurd hfs' List.not_mem_nil) ?_
        rw [← hspaces, hparent]
        exact hlt
      · refine adopted_adopt h ht hparent (by rw [← hspaces]; exact hfs)
          (by rw [← htables]; exact htable) hown.symm hbindings.symm ?_
        exact iff_of_true hparent (decide_eq_true hshared)
    · rw [if_neg (fun hboth => hshared hboth.1), if_neg (by decide), htables]
      constructor
      · refine valid_adopt h hmem hparent (fun fs' hfs' => ?_) hlast
        rw [List.mem_singleton.1 hfs', ← htables]
        exact htablelt
      · refine adopted_adopt h ht hparent List.getElem?_concat_length
          (by rw [← htables]; exact htable) hown.symm hbindings.symm ?_
        exact iff_of_false hnew (by rw [decide_eq_false hshared]; decide)

theorem Adopted.private_iff {shared stripped fake : Bool} {s' : Views} (h : Valid s)
    (hi : i < s.tracees.length) (ha : Adopted s i shared stripped fake s') :
    s'.Private s.tracees.length ↔ stripped = true := by
  constructor
  · intro hprivate
    by_contra hno
    apply hprivate i (by omega)
    rw [ha.others i (by omega), ha.table, if_neg hno]
  · intro hstripped j hj
    rw [ha.others j hj, ha.table, if_pos hstripped]
    intro hsame
    exact absurd (h.tableOf_lt hsame) (Nat.lt_irrefl _)

/-- The child has what its call asked for exactly when nothing else was remembered. -/
theorem Adopted.born_iff {shared stripped fake : Bool} {s' : Views} {flags : UInt64} (h : Valid s)
    (ht : s.tracees[i]? = some t) (ha : Adopted s i shared stripped fake s') :
    s.Born i flags s.tracees.length s' ↔
      (stripped = true ↔ Has flags cloneNewns) ∧
      fake = (t.fakeNetns || decide (Has flags cloneNewnet)) ∧
      (shared = true ↔ Has flags cloneFs ∧ ¬ Has flags cloneNewns) := by
  have hi := (List.getElem?_eq_some_iff.1 ht).1
  have hfake : s.fakeNetnsOf i = some t.fakeNetns := by rw [fakeNetnsOf, ht, Option.map_some]
  constructor
  · intro hborn
    refine ⟨(ha.private_iff h hi).symm.trans hborn.isPrivate, ?_, ha.fs.symm.trans hborn.fs⟩
    have hsame := hborn.fakeNetns
    rw [ha.fakeNetns, hfake, Option.map_some] at hsame
    exact Option.some.inj hsame
  · rintro ⟨hstripped, hnet, hshared⟩
    refine ⟨(ha.private_iff h hi).trans hstripped, ?_, ?_, ha.fs.trans hshared⟩
    · simp only [ha.bindings, hstripped]
    · rw [ha.fakeNetns, hfake, Option.map_some, hnet]

theorem step_of {op : ViewsOp} (ht : s.tracees[op.tracee]? = some t) :
    s.step op = s.stepOf t op := by
  simp only [step, ht]

theorem step_child (ht : s.tracees[i]? = some t) {call : ProcessCall} (hcall : call ≠ .clone3Fault)
    (word : UInt64) :
    s.step (.call i call (.child word)) = s.newChild i (t.translateSyscallEnter call).1
      ((t.translateSyscallEnter call).2.cloneFlags word) := by
  rw [step_of ht]
  cases call with
  | clone3Fault => exact absurd rfl hcall
  | clone flags => rfl
  | clone3 flags => rfl
  | fork => rfl
  | vfork => rfl

/-- A child that shows up has what its call asked for exactly when nothing is mixed in. -/
theorem born_child (h : Valid s) (ht : s.tracees[i]? = some t) {call : ProcessCall}
    (hcall : call ≠ .clone3Fault) (word : UInt64) :
    Valid (s.step (.call i call (.child word))) ∧
      (s.Born i call.flags s.tracees.length (s.step (.call i call (.child word))) ↔
        t.Unmixed call word) := by
  rw [step_child ht hcall, Cloner.Unmixed]
  have henter := t.translateSyscallEnter_fst call
  have hparent : (t.translateSyscallEnter call).1.fs = t.fs := by rw [henter]
  obtain ⟨hvalid, hadopted⟩ := adopted_newChild h ht hparent
    ((t.translateSyscallEnter call).2.cloneFlags word)
  refine ⟨hvalid, ?_⟩
  rw [hadopted.born_iff h ht, henter]
  have hfs := t.has_cloneFlags call word
  have hnet : ((t.fakeNetns || (t.cloneStrippedNewnet || decide (Has call.flags cloneNewnet))) =
      (t.fakeNetns || decide (Has call.flags cloneNewnet))) ↔
      (t.cloneStrippedNewnet = true → t.fakeNetns = true ∨ Has call.flags cloneNewnet) := by
    cases t.fakeNetns <;> cases t.cloneStrippedNewnet <;> simp
  have hns : (t.cloneStrippedNewns || decide (Has call.flags cloneNewns)) = true ↔
      t.cloneStrippedNewns = true ∨ Has call.flags cloneNewns := by
    rw [Bool.or_eq_true, decide_eq_true_iff]
  have hshared : (decide (Has ((t.translateSyscallEnter call).2.cloneFlags word) cloneFs) &&
      !(t.cloneStrippedNewns || decide (Has call.flags cloneNewns))) = true ↔
      Has (call.reread word) cloneFs ∧ ¬ t.cloneStrippedNewns = true ∧
        ¬ Has call.flags cloneNewns := by
    rw [Bool.and_eq_true, Bool.not_eq_true', Bool.or_eq_false_iff, decide_eq_true_iff,
      decide_eq_false_iff_not, hfs, Bool.not_eq_true]
  simp only [hnet, hns, hshared]
  exact unmixed_logic _ _ _ _ _

theorem valid_set (h : Valid s) (u : Cloner) (hu : u.fs < s.spaces.length) :
    Valid { s with tracees := s.tracees.set i u } := by
  refine ⟨fun v hv => ?_, h.tables⟩
  obtain hold | rfl := List.mem_or_eq_of_mem_set hv
  · exact h.spaces v hold
  · exact hu

theorem valid_unshare (h : Valid s) (ht : t ∈ s.tracees) (flags : UInt64) :
    Valid (s.unshare i t flags) := by
  obtain ⟨fs, table, hfs, htable⟩ := h.found ht
  have hnext : Valid (if Has flags cloneNewns then s.unshareFileSystemNamespace i t else s) := by
    split
    · simp only [unshareFileSystemNamespace, hfs, htable]
      refine h.extend (fun fs' hfs' => ?_) fun u hu => ?_
      · rw [List.mem_singleton.1 hfs', List.length_append]
        exact Nat.lt_succ_self _
      · rw [List.length_append]
        obtain hold | rfl := List.mem_or_eq_of_mem_set hu
        · exact Nat.lt_succ_of_lt (h.spaces u hold)
        · exact Nat.lt_succ_self _
    · exact h
  unfold unshare
  simp only
  generalize (if Has flags cloneNewns then s.unshareFileSystemNamespace i t else s) = next
    at hnext ⊢
  split
  · refine ⟨fun u hu => ?_, hnext.tables⟩
    obtain ⟨j, hj, rfl⟩ := List.mem_iff_getElem.1 hu
    rw [List.length_modify] at hj
    have hold := hnext.spaces _ (List.getElem_mem hj)
    rw [List.getElem_modify]
    split
    · exact hold
    · exact hold
  · exact hnext

theorem valid_step (h : Valid s) (op : ViewsOp) : Valid (s.step op) := by
  cases ht : s.tracees[op.tracee]? with
  | none =>
    simp only [step, ht]
    exact h
  | some t =>
    have hmem := List.mem_of_getElem? ht
    rw [step_of ht]
    cases op with
    | unshare i flags => exact valid_unshare h hmem flags
    | mount i table =>
      obtain ⟨fs, -, hfs, -⟩ := h.found hmem
      simp only [stepOf, hfs]
      exact ⟨h.spaces, fun fs' hfs' => by rw [List.length_set]; exact h.tables fs' hfs'⟩
    | call i call outcome =>
      by_cases hcall : call = .clone3Fault
      · rw [hcall]
        exact h
      · cases outcome with
        | refused =>
          have hset := valid_set (i := i) h (t.translateSyscallEnter call).1 (by
            rw [t.translateSyscallEnter_fst]
            exact h.spaces t hmem)
          cases call with
          | clone3Fault => exact absurd rfl hcall
          | clone flags => exact hset
          | clone3 flags => exact hset
          | fork => exact hset
          | vfork => exact hset
        | child word =>
          rw [← step_of ht]
          exact (born_child h ht hcall word).1

theorem bornRight_iff (h : Valid s) (op : ViewsOp) : s.BornRight op ↔ s.Unmixed op := by
  cases op with
  | unshare i flags => exact Iff.rfl
  | mount i table => exact Iff.rfl
  | call i call outcome =>
    cases outcome with
    | refused => cases call <;> exact Iff.rfl
    | child word =>
      by_cases hcall : call = .clone3Fault
      · rw [hcall]
        exact Iff.rfl
      · have hright : s.BornRight (.call i call (.child word)) ↔ (i < s.tracees.length →
            s.Born i call.flags s.tracees.length (s.step (.call i call (.child word)))) := by
          cases call with
          | clone3Fault => exact absurd rfl hcall
          | clone flags => exact Iff.rfl
          | clone3 flags => exact Iff.rfl
          | fork => exact Iff.rfl
          | vfork => exact Iff.rfl
        have hunmixed : s.Unmixed (.call i call (.child word)) ↔
            ∀ t ∈ s.tracees[i]?, t.Unmixed call word := by
          cases call with
          | clone3Fault => exact absurd rfl hcall
          | clone flags => exact Iff.rfl
          | clone3 flags => exact Iff.rfl
          | fork => exact Iff.rfl
          | vfork => exact Iff.rfl
        rw [hright, hunmixed]
        constructor
        · intro hborn t ht
          exact (born_child h ht hcall word).2.1 (hborn (List.getElem?_eq_some_iff.1 ht).1)
        · intro hborn hi
          have ht := List.getElem?_eq_getElem hi
          exact (born_child h ht hcall word).2.2 (hborn _ ht)

/-! ### Runs -/

/-- In a run of any tracees with any calls, each child has a private copy of the binding table, a
network of its own and the name-space of its parent as its own call asks for it, exactly when
nothing is mixed in. -/
theorem children_born_iff (table : Bindings) (fs : Space) (ops : List ViewsOp) :
    AllSteps step BornRight (start table fs) ops ↔ AllSteps step Unmixed (start table fs) ops :=
  allSteps_congr_of_invariant (I := Valid) (fun _ op h _ => valid_step h op)
    (fun _ op h => bornRight_iff h op) (valid_start table fs) ops

/-- A refused request for a new name-space is granted to the child of the next fork. -/
theorem refused_clone_remembered :
    ¬ ∀ (table : Bindings) (fs : Space) (ops : List ViewsOp),
      AllSteps step BornRight (start table fs) ops := by
  intro h
  have hlast := (h .empty ⟨0, ['/'], none, none, none, none⟩
    [.call 0 (.clone (cloneNewns ||| 17)) .refused, .call 0 (.clone 17) (.child 17)]).2.1
  have hunmixed := (bornRight_iff (valid_step (valid_start _ _) _) _).1 hlast
  exact absurd ((hunmixed _ rfl).1 rfl) (by decide)

end Views

end NeoProot.Clone
