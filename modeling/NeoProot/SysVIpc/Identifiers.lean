import NeoProot.SysVIpc.Semaphores
import NeoProot.SysVIpc.Messages
import NeoProot.SysVIpc.SharedMem
import NeoProot.Lib.Run

/-!
# Ids of queues, sets and segments

An id packs the slot of an object and its generation.  A slot that is used again
is zeroed, its generation with it, so an object gets the id of the one that was in
its slot before; and a slot from 4095 on does not fit its field.  Beside the tables
a ledger is kept of the objects that were made and of the ids that were answered.
`ids_never_alias_iff` says that in a run ids never alias exactly when objects are
made only in slots without an id, and no id is answered for a slot that is too far.

## Main definitions

* `IdSystem` — what the three kinds of objects have in common.
* `IdRun` — a namespace with its ledger.
* `NoAlias` — every id names its own object, and only as long as it lives.
-/

namespace NeoProot.SysVIpc

open Run

variable {i slot : ℕ} {id : BitVec 32} {born : ℕ → ℕ}

section

variable {α : Type}

/-! ### Tables -/

/-- No object is made, and the live ones keep their generation. -/
def Kept (before after : List (IpcObject α)) : Prop :=
  ∀ (i : ℕ) (o : IpcObject α), after[i]? = some o → o.valid = true →
    ∃ o' : IpcObject α, before[i]? = some o' ∧ o'.valid = true ∧ o'.generation = o.generation

theorem Kept.refl (objects : List (IpcObject α)) : Kept objects objects :=
  fun _ o ho hv => ⟨o, ho, hv, rfl⟩

theorem Kept.trans {a b c : List (IpcObject α)} (hab : Kept a b) (hbc : Kept b c) : Kept a c := by
  intro i o ho hv
  obtain ⟨p, hp, hpv, hpg⟩ := hbc i o ho hv
  obtain ⟨q, hq, hqv, hqg⟩ := hab i p hp hpv
  exact ⟨q, hq, hqv, hqg.trans hpg⟩

theorem Kept.validAt {before after : List (IpcObject α)} (h : Kept before after)
    (hv : ValidAt after i) : ValidAt before i := by
  obtain ⟨o, ho, hvo⟩ := hv
  obtain ⟨o', ho', hvo', -⟩ := h i o ho hvo
  exact ⟨o', ho', hvo'⟩

/-- A change of one object that makes none. -/
theorem Kept.modify (objects : List (IpcObject α)) (idx : ℕ) {f : IpcObject α → IpcObject α}
    (hf : ∀ o, (f o).valid = true → o.valid = true ∧ (f o).generation = o.generation) :
    Kept objects (objects.modify idx f) := by
  intro i o ho hv
  rw [List.getElem?_modify] at ho
  cases hi : objects[i]? with
  | none =>
    rw [hi] at ho
    cases ho
  | some p =>
    rw [hi, Option.map_eq_map, Option.map_some, Option.some.injEq] at ho
    split at ho
    · rw [← ho] at hv
      obtain ⟨hpv, hpg⟩ := hf p hv
      exact ⟨p, rfl, hpv, by rw [← ho, hpg]⟩
    · exact ⟨p, rfl, ho ▸ hv, by rw [← ho]⟩

theorem Kept.modifyContent (objects : List (IpcObject α)) (idx : ℕ) (f : α → α) :
    Kept objects (modifyContent objects idx f) :=
  .modify objects idx fun _ hv => ⟨hv, rfl⟩

theorem Kept.removed (objects : List (IpcObject α)) (idx : ℕ) (content : α) :
    Kept objects (objects.modify idx (IpcObject.removed content)) :=
  .modify objects idx fun _ hv => nomatch hv

/-- A slot that is taken without making an object. -/
theorem Kept.place (objects : List (IpcObject α)) {o : IpcObject α} (ho : o.valid = false) :
    Kept objects (place objects o) := by
  intro i p hp hv
  rw [getElem?_place] at hp
  split at hp
  · rw [Option.some.injEq] at hp
    rw [← hp, ho] at hv
    cases hv
  · exact ⟨p, hp, hv, rfl⟩

theorem FirstGeneration.kept {before after : List (IpcObject α)} (h : FirstGeneration before)
    (hkept : Kept before after) : FirstGeneration after := by
  intro o ho hv
  obtain ⟨i, hi⟩ := List.mem_iff_getElem?.1 ho
  obtain ⟨o', ho', hv', hg⟩ := hkept i o hi hv
  rw [← hg]
  exact h o' (List.mem_of_getElem? ho') hv'

theorem FirstGeneration.place {objects : List (IpcObject α)} (h : FirstGeneration objects)
    {o : IpcObject α} (ho : o.generation = 0) : FirstGeneration (place objects o) := by
  intro p hp hv
  rcases mem_place hp with rfl | hp
  · exact ho
  · exact h p hp hv

/-! ### Ids of the first generation -/

/-- The id of a slot whose object is of the first generation. -/
theorem ipcObjectId_zero (i : ℕ) : ipcObjectId i 0 = BitVec.ofNat 32 (i + 1) := by
  simp [ipcObjectId]

theorem index_ofNat (h : i + 1 < 4096) : (BitVec.ofNat 32 (i + 1) &&& 0xFFF#32).toNat = i + 1 := by
  have hmask : (0xFFF#32).toNat = 2 ^ 12 - 1 := rfl
  rw [BitVec.toNat_and, hmask, Nat.and_two_pow_sub_one_eq_mod, BitVec.toNat_ofNat]
  omega

theorem generation_ofNat (h : i + 1 < 4096) :
    (BitVec.ofNat 32 (i + 1) >>> 12 &&& 0xFFFF#32).toNat = 0 := by
  have hmask : (0xFFFF#32).toNat = 2 ^ 16 - 1 := rfl
  rw [BitVec.toNat_and, hmask, Nat.and_two_pow_sub_one_eq_mod, BitVec.toNat_ushiftRight,
    BitVec.toNat_ofNat, Nat.shiftRight_eq_div_pow]
  omega

/-- While live objects are of the first generation, an id in range names what is in its slot. -/
theorem lookup_ofNat {objects : List (IpcObject α)} (hfirst : FirstGeneration objects)
    (h : i + 1 < 4096) :
    lookupIpcObject objects (BitVec.ofNat 32 (i + 1)) =
      if ValidAt objects i then some i else none := by
  rw [lookupIpcObject]
  simp only [index_ofNat h, generation_ofNat h, Nat.add_one_sub_one]
  by_cases hv : ValidAt objects i
  · obtain ⟨o, ho, hvo⟩ := hv
    have hlt : i < objects.length := (List.getElem?_eq_some_iff.1 ho).1
    have hg := hfirst o (List.mem_of_getElem? ho) hvo
    rw [if_neg (by omega), ho, if_pos ⟨o, ho, hvo⟩]
    simp [hvo, hg]
  · rw [if_neg hv]
    split
    · rfl
    · cases ho : objects[i]? with
      | none => rfl
      | some o =>
        dsimp only
        rw [if_neg]
        rintro ⟨hvo, -⟩
        exact hv ⟨o, ho, hvo⟩

/-! ### What one event does to a table -/

/-- A `get` call: the slots whose object it finds, whether it makes an object, and whether it
then answers its id. -/
structure GetRequest where
  finds : ℕ → Prop
  makes : Prop
  answers : Prop

/-- What an event does to a table, given its `get` call if it is one: the table after it, and
the slot and id that it answers. -/
inductive TableStep (before : List (IpcObject α)) :
    Option GetRequest → List (IpcObject α) → Option (ℕ × BitVec 32) → Prop
  | quiet {request after} (hkept : Kept before after)
      (hno : ∀ g ∈ request, (∀ i, ¬ g.finds i) ∧ ¬ g.makes) :
      TableStep before request after none
  | found {g : GetRequest} {i o} (hget : before[i]? = some o) (hv : o.valid = true)
      (hfinds : g.finds i) (honly : ∀ j, g.finds j → j = i) (hno : ¬ g.makes) :
      TableStep before (some g) before (some (i, ipcObjectId i o.generation))
  | made {g : GetRequest} {o} (hv : o.valid = true) (hg : o.generation = 0)
      (hmakes : g.makes) (hno : ∀ i, ¬ g.finds i) (hanswers : g.answers) :
      TableStep before (some g) (place before o)
        (some (claimIndex before, ipcObjectId (claimIndex before) 0))
  | lost {g : GetRequest} {o} (hv : o.valid = true) (hg : o.generation = 0)
      (hmakes : g.makes) (hno : ∀ i, ¬ g.finds i) (hanswers : ¬ g.answers) :
      TableStep before (some g) (place before o) none

variable {before after : List (IpcObject α)} {request : Option GetRequest}

theorem TableStep.firstGeneration {issued : Option (ℕ × BitVec 32)}
    (h : TableStep before request after issued) (hfirst : FirstGeneration before) :
    FirstGeneration after := by
  cases h with
  | quiet hkept => exact hfirst.kept hkept
  | found => exact hfirst
  | made _ hg => exact hfirst.place hg
  | lost _ hg => exact hfirst.place hg

/-- The slot in which an object is made. -/
theorem TableStep.validAt {issued : Option (ℕ × BitVec 32)}
    (h : TableStep before request after issued) (hv : ValidAt after i) :
    ValidAt before i ∨ (i = claimIndex before ∧ ∃ g ∈ request, g.makes) := by
  cases h with
  | quiet hkept => exact .inl (hkept.validAt hv)
  | found => exact .inl hv
  | made _ _ hmakes =>
    rw [validAt_place] at hv
    exact hv.symm.imp_right fun hnew => ⟨hnew.1, _, rfl, hmakes⟩
  | lost _ _ hmakes =>
    rw [validAt_place] at hv
    exact hv.symm.imp_right fun hnew => ⟨hnew.1, _, rfl, hmakes⟩

/-- The id that is answered is that of its slot. -/
theorem TableStep.issued (h : TableStep before request after (some (slot, id)))
    (hfirst : FirstGeneration before) : id = BitVec.ofNat 32 (slot + 1) ∧ ValidAt after slot ∧
      ∃ g ∈ request, g.finds slot ∨ (g.makes ∧ g.answers ∧ slot = claimIndex before) := by
  cases h with
  | found hget hv hfinds =>
    rw [hfirst _ (List.mem_of_getElem? hget) hv, ipcObjectId_zero]
    exact ⟨rfl, ⟨_, hget, hv⟩, _, rfl, .inl hfinds⟩
  | made hv _ hmakes _ hanswers =>
    rw [ipcObjectId_zero]
    exact ⟨rfl, (validAt_place _ _ _).2 (.inl ⟨rfl, hv⟩), _, rfl, .inr ⟨hmakes, hanswers, rfl⟩⟩

/-- A `get` that finds an object answers its id. -/
theorem TableStep.of_finds {issued : Option (ℕ × BitVec 32)}
    (h : TableStep before request after issued) {g : GetRequest} (hg : g ∈ request)
    (hi : g.finds i) : ∃ id, issued = some (i, id) := by
  cases h with
  | quiet _ hno => exact absurd hi ((hno g hg).1 i)
  | found _ _ _ honly =>
    cases hg
    rw [honly i hi]
    exact ⟨_, rfl⟩
  | made _ _ _ hno =>
    cases hg
    exact absurd hi (hno i)
  | lost _ _ _ hno =>
    cases hg
    exact absurd hi (hno i)

/-- A `get` that makes an object makes it in the slot that it claims. -/
theorem TableStep.of_makes {issued : Option (ℕ × BitVec 32)}
    (h : TableStep before request after issued) {g : GetRequest} (hg : g ∈ request)
    (hmakes : g.makes) :
    ValidAt after (claimIndex before) ∧
      (g.answers → ∃ id, issued = some (claimIndex before, id)) := by
  cases h with
  | quiet _ hno => exact absurd hmakes (hno g hg).2
  | found _ _ _ _ hno =>
    cases hg
    exact absurd hmakes hno
  | made hv =>
    exact ⟨(validAt_place _ _ _).2 (.inl ⟨rfl, hv⟩), fun _ => ⟨_, rfl⟩⟩
  | lost hv _ _ _ hanswers =>
    cases hg
    exact ⟨(validAt_place _ _ _).2 (.inl ⟨rfl, hv⟩), fun ha => absurd ha hanswers⟩

end

/-! ### The ledger of a run -/

/-- An id that was answered, its slot, and which of the objects made in the slot it names. -/
structure Issued where
  id : BitVec 32
  slot : ℕ
  birth : ℕ
  deriving DecidableEq, Repr

variable {x : Issued}

/-- A namespace with the number of objects made in each slot and the ids that were answered. -/
structure IdRun (σ : Type) where
  world : σ
  born : ℕ → ℕ
  issued : List Issued

/-- One kind of object: the steps of a namespace, its table, and the `get` calls with what they
answer. -/
structure IdSystem (σ ε α : Type) where
  step : σ → ε → σ
  table : σ → List (IpcObject α)
  request : σ → ε → Option GetRequest
  issues : σ → ε → Option (ℕ × BitVec 32)
  sound : ∀ s e, TableStep (table s) (request s e) (table (step s e)) (issues s e)

namespace IdSystem

variable {σ ε α : Type} (S : IdSystem σ ε α)

/-- The ids after an event. -/
def issuedAfter (r : IdRun σ) (e : ε) (born : ℕ → ℕ) : List Issued :=
  match S.issues r.world e with
  | some (slot, id) => ⟨id, slot, born slot⟩ :: r.issued
  | none => r.issued

/-- The number of objects made in each slot after an event. -/
def bornAfter (r : IdRun σ) (e : ε) (i : ℕ) : ℕ :=
  if ¬ ValidAt (S.table r.world) i ∧ ValidAt (S.table (S.step r.world e)) i then r.born i + 1
  else r.born i

/-- One event. -/
def idStep (r : IdRun σ) (e : ε) : IdRun σ where
  world := S.step r.world e
  born := S.bornAfter r e
  issued := S.issuedAfter r e (S.bornAfter r e)

/-- A namespace at its start. -/
def start (s : σ) : IdRun σ := ⟨s, fun _ => 0, []⟩

/-- The object of an id lives. -/
def Alive (r : IdRun σ) (x : Issued) : Prop :=
  ValidAt (S.table r.world) x.slot ∧ r.born x.slot = x.birth

instance (r : IdRun σ) (x : Issued) : Decidable (S.Alive r x) :=
  inferInstanceAs (Decidable (_ ∧ _))

/-- Every id names its own object as long as it lives, and nothing afterwards, until so many
objects were made in its slot that the generations are used up. -/
structure NoAlias (r : IdRun σ) : Prop where
  resolves : ∀ x ∈ r.issued, S.Alive r x →
    lookupIpcObject (S.table r.world) x.id = some x.slot
  gone : ∀ x ∈ r.issued, ¬ S.Alive r x → r.born x.slot < x.birth + 2 ^ 16 →
    lookupIpcObject (S.table r.world) x.id = none
  distinct : ∀ x ∈ r.issued, ∀ y ∈ r.issued, S.Alive r x → S.Alive r y → x.id = y.id →
    x.slot = y.slot

/-- The condition on an event: no object is made in a slot for which an id was answered, and no
id is answered for a slot that does not fit its field. -/
def FreshIds (r : IdRun σ) (e : ε) : Prop :=
  ∀ g ∈ S.request r.world e,
    (∀ i, g.finds i → i + 1 < 4096) ∧
      (g.makes → (∀ x ∈ r.issued, x.slot ≠ claimIndex (S.table r.world)) ∧
        (g.answers → claimIndex (S.table r.world) + 1 < 4096))

/-- What holds in a run with fresh ids: nothing was made after an id in its slot. -/
structure Inv (r : IdRun σ) : Prop where
  first : FirstGeneration (S.table r.world)
  issued : ∀ x ∈ r.issued, x.id = BitVec.ofNat 32 (x.slot + 1) ∧ x.slot + 1 < 4096 ∧
    r.born x.slot = x.birth

variable {S} {r : IdRun σ} {e : ε}

theorem mem_issuedAfter (h : x ∈ S.issuedAfter r e born) :
    x ∈ r.issued ∨ (S.issues r.world e = some (x.slot, x.id) ∧ x.birth = born x.slot) := by
  unfold issuedAfter at h
  split at h
  · rename_i slot id hissued
    rcases List.mem_cons.1 h with rfl | h
    · exact .inr ⟨hissued, rfl⟩
    · exact .inl h
  · exact .inl h

theorem issuedAfter_of_mem (h : x ∈ r.issued) :
    x ∈ S.issuedAfter r e born := by
  unfold issuedAfter
  split
  · exact List.mem_cons_of_mem _ h
  · exact h

theorem issuedAfter_self (h : S.issues r.world e = some (slot, id)) :
    ⟨id, slot, born slot⟩ ∈ S.issuedAfter r e born := by
  rw [issuedAfter, h]
  exact List.mem_cons_self

theorem Inv.noAlias (h : S.Inv r) : S.NoAlias r := by
  have hlookup : ∀ x ∈ r.issued, lookupIpcObject (S.table r.world) x.id =
      if ValidAt (S.table r.world) x.slot then some x.slot else none := by
    intro x hx
    obtain ⟨hid, hlt, -⟩ := h.issued x hx
    rw [hid]
    exact lookup_ofNat h.first hlt
  refine ⟨?_, ?_, ?_⟩
  · intro x hx halive
    rw [hlookup x hx, if_pos halive.1]
  · intro x hx hdead _
    rw [hlookup x hx, if_neg]
    exact fun hv => hdead ⟨hv, (h.issued x hx).2.2⟩
  · intro x hx y hy hxa hya hid
    have hslot := hlookup x hx
    rw [hid, hlookup y hy, if_pos hya.1, if_pos hxa.1, Option.some.injEq] at hslot
    exact hslot.symm

/-- No object is made in a slot for which an id was answered. -/
theorem bornAfter_of_fresh (hfresh : S.FreshIds r e) (hx : x ∈ r.issued) :
    S.bornAfter r e x.slot = r.born x.slot := by
  rw [bornAfter, if_neg]
  rintro ⟨hold, hnew⟩
  rcases (S.sound r.world e).validAt hnew with hv | ⟨hslot, g, hg, hmakes⟩
  · exact hold hv
  · exact ((hfresh g hg).2 hmakes).1 x hx hslot

theorem Inv.step (h : S.Inv r) (hfresh : S.FreshIds r e) :
    S.Inv (S.idStep r e) := by
  refine ⟨(S.sound r.world e).firstGeneration h.first, ?_⟩
  intro x hx
  rcases mem_issuedAfter hx with hx | ⟨hissued, hbirth⟩
  · obtain ⟨hid, hlt, hbirth⟩ := h.issued x hx
    exact ⟨hid, hlt, (bornAfter_of_fresh hfresh hx).trans hbirth⟩
  · have hsound := S.sound r.world e
    rw [hissued] at hsound
    obtain ⟨hid, -, g, hg, hwhy⟩ := hsound.issued h.first
    refine ⟨hid, ?_, hbirth.symm⟩
    rcases hwhy with hfinds | ⟨hmakes, hanswers, hslot⟩
    · exact (hfresh g hg).1 x.slot hfinds
    · rw [hslot]
      exact ((hfresh g hg).2 hmakes).2 hanswers

/-- An id that was just answered is in range if it names its object. -/
theorem lt_of_noAlias (hfirst : FirstGeneration (S.table r.world))
    (h : S.NoAlias (S.idStep r e)) (hissued : S.issues r.world e = some (slot, id)) :
    slot + 1 < 4096 := by
  have hsound := S.sound r.world e
  rw [hissued] at hsound
  obtain ⟨-, hv, -⟩ := hsound.issued hfirst
  have hlookup := h.resolves ⟨id, slot, S.bornAfter r e slot⟩ (issuedAfter_self hissued)
    ⟨hv, rfl⟩
  obtain ⟨-, -, -, hindex⟩ := lookupIpcObject_eq_some hlookup
  have hlt : (id &&& 0xFFF#32).toNat < 4096 := by
    rw [BitVec.toNat_and]
    exact Nat.lt_of_le_of_lt Nat.and_le_right (by decide)
  dsimp only at hindex
  omega

/-- One event keeps ids from aliasing exactly when the ids are fresh. -/
theorem noAlias_step (h : S.Inv r) (e : ε) :
    S.NoAlias (S.idStep r e) ↔ S.FreshIds r e := by
  constructor
  · intro hnext g hg
    have hsound := S.sound r.world e
    refine ⟨fun i hi => ?_, fun hmakes => ?_⟩
    · obtain ⟨id, hid⟩ := hsound.of_finds hg hi
      exact lt_of_noAlias h.first hnext hid
    · obtain ⟨hv, hanswer⟩ := hsound.of_makes hg hmakes
      refine ⟨fun x hx hslot => ?_, fun hanswers => ?_⟩
      · -- the object that was made has the id of the one that was in the slot before
        obtain ⟨hid, hlt, hbirth⟩ := h.issued x hx
        have hborn : S.bornAfter r e x.slot = x.birth + 1 := by
          rw [bornAfter, if_pos, hbirth]
          rw [hslot]
          exact ⟨not_validAt_claimIndex _, hv⟩
        have hdead : ¬ S.Alive (S.idStep r e) x := fun halive => by
          have := halive.2
          simp only [idStep] at this
          omega
        have hgone := hnext.gone x (issuedAfter_of_mem hx) hdead (by
          simp only [idStep]
          omega)
        have hfirst := hsound.firstGeneration h.first
        simp only [idStep] at hgone
        rw [hid, lookup_ofNat hfirst hlt, if_pos (hslot ▸ hv)] at hgone
        cases hgone
      · obtain ⟨id, hid⟩ := hanswer hanswers
        exact lt_of_noAlias h.first hnext hid
  · exact fun hfresh => (h.step hfresh).noAlias

/-- In a run ids never alias exactly when they are fresh at every event. -/
theorem noAlias_iff {s : σ} (hs : FirstGeneration (S.table s)) (events : List ε) :
    (∀ r ∈ states S.idStep (start s) events, S.NoAlias r) ↔
      AllSteps S.idStep S.FreshIds (start s) events := by
  have hstart : S.Inv (start s) := ⟨hs, nofun⟩
  exact states_iff_allSteps_of_kept (I := S.Inv) (fun _ _ h _ hfresh => h.step hfresh)
    (fun _ e h _ => noAlias_step h e) hstart hstart.noAlias

end IdSystem

/-! ### The three kinds -/

/-- The slot and the id that a `get` call answers. -/
def issuedId {α : Type} (got : List (IpcObject α) × Except ℤ ℕ) : Option (ℕ × BitVec 32) :=
  match got.2 with
  | .ok i => some (i, ipcObjectId i ((got.1[i]?.map (·.generation)).getD 0))
  | .error _ => none

theorem findExisting_eq_some {α : Type} {objects : List (IpcObject α)} {key : UInt64}
    (h : findExisting objects key = some i) : ∃ o, objects[i]? = some o ∧ o.valid = true := by
  unfold findExisting at h
  split at h
  · cases h
  · rw [List.findIdx?_eq_some_iff_getElem] at h
    obtain ⟨hi, hv, -⟩ := h
    rw [Bool.and_eq_true] at hv
    exact ⟨objects[i], List.getElem?_eq_getElem hi, hv.1⟩

section

variable {α : Type} {objects : List (IpcObject α)} {g : GetRequest}

/-- A `get` call that fails and makes nothing. -/
theorem TableStep.of_error {after : List (IpcObject α)} (hkept : Kept objects after)
    (hfinds : ∀ i, ¬ g.finds i) (hmakes : ¬ g.makes) : TableStep objects (some g) after none :=
  .quiet hkept fun g' hg => by
    cases hg
    exact ⟨hfinds, hmakes⟩

/-- A `get` call that finds the object of its key. -/
theorem TableStep.of_found {o : IpcObject α} (hget : objects[i]? = some o) (hv : o.valid = true)
    (hfinds : g.finds i) (honly : ∀ j, g.finds j → j = i) (hno : ¬ g.makes) :
    TableStep objects (some g) objects (issuedId (objects, .ok i)) := by
  have hid : issuedId (objects, .ok i) = some (i, ipcObjectId i o.generation) := by
    simp [issuedId, hget]
  rw [hid]
  exact .found hget hv hfinds honly hno

/-- A `get` call that makes an object and answers its id. -/
theorem TableStep.of_made {o : IpcObject α} (hv : o.valid = true) (hg : o.generation = 0)
    (hmakes : g.makes) (hno : ∀ i, ¬ g.finds i) (hanswers : g.answers) :
    TableStep objects (some g) (place objects o)
      (issuedId (place objects o, .ok (claimIndex objects))) := by
  have hid : issuedId (place objects o, .ok (claimIndex objects)) =
      some (claimIndex objects, ipcObjectId (claimIndex objects) 0) := by
    simp [issuedId, getElem?_place, hg]
  rw [hid]
  exact .made hv hg hmakes hno hanswers

end

theorem found_of_eq_some {γ : Type} {found : Option γ} {i : γ} (h : found = some i) :
    found ≠ none ∧ ∀ j, found = some j → j = i := by
  rw [h]
  exact ⟨Option.some_ne_none i, fun j hj => (Option.some.inj hj).symm⟩

/-- When `semget` finds a set, and when it makes one. -/
def semgetRequest (objects : List SysVIpcSemaphore) (a : SemgetArgs) : GetRequest where
  finds i := ¬ (a.nsems ≤ 0 ∨ (SYSVIPC_MAX_NSEMS : ℤ) < a.nsems) ∧
    findExisting objects a.key = some i ∧
    ¬ (HasFlag a.flg IPC_CREAT ∧ HasFlag a.flg IPC_EXCL) ∧
    ∀ o, objects[i]? = some o → a.nsems ≤ o.content.length
  makes := ¬ (a.nsems ≤ 0 ∨ (SYSVIPC_MAX_NSEMS : ℤ) < a.nsems) ∧
    findExisting objects a.key = none ∧ HasFlag a.flg IPC_CREAT ∧
    (findUnused objects = none → objects.length < SYSVIPC_MAX_SEMS ∧ a.grows = true) ∧
    a.allocates = true
  answers := True

theorem semget_tableStep (objects : List SysVIpcSemaphore) (a : SemgetArgs) :
    TableStep objects (some (semgetRequest objects a)) (semget objects a).1
      (issuedId (semget objects a)) := by
  unfold semget
  by_cases hn : a.nsems ≤ 0 ∨ (SYSVIPC_MAX_NSEMS : ℤ) < a.nsems
  · rw [if_pos hn]
    exact TableStep.of_error (.refl _) (fun i h => h.1 hn) fun h => h.1 hn
  rw [if_neg hn]
  cases hfind : findExisting objects a.key with
  | some i =>
    obtain ⟨o, ho, hv⟩ := findExisting_eq_some hfind
    obtain ⟨hthere, hone⟩ := found_of_eq_some hfind
    have hmakes : ¬ (semgetRequest objects a).makes := fun h => hthere h.2.1
    have honly : ∀ j, (semgetRequest objects a).finds j → j = i := fun j h => hone j h.2.1
    dsimp only
    by_cases hexcl : HasFlag a.flg IPC_CREAT ∧ HasFlag a.flg IPC_EXCL
    · rw [if_pos hexcl]
      exact TableStep.of_error (.refl _) (fun i h => h.2.2.1 hexcl) hmakes
    rw [if_neg hexcl, ho]
    dsimp only
    by_cases hlen : (o.content.length : ℤ) < a.nsems
    · rw [if_pos hlen]
      refine TableStep.of_error (.refl _) (fun j h => ?_) hmakes
      have := h.2.2.2 o (honly j h ▸ ho)
      omega
    · rw [if_neg hlen]
      refine .of_found ho hv ⟨hn, hfind, hexcl, fun o' ho' => ?_⟩ honly hmakes
      rw [ho, Option.some.injEq] at ho'
      rw [← ho']
      omega
  | none =>
    have hfinds : ∀ i, ¬ (semgetRequest objects a).finds i := fun i h =>
      Option.eq_none_iff_forall_ne_some.1 hfind i h.2.1
    dsimp only
    by_cases hcreat : HasFlag a.flg IPC_CREAT
    swap
    · rw [if_pos hcreat]
      exact TableStep.of_error (.refl _) hfinds fun h => hcreat h.2.2.1
    rw [if_neg (not_not.2 hcreat)]
    by_cases hmax : findUnused objects = none ∧ SYSVIPC_MAX_SEMS ≤ objects.length
    · rw [if_pos hmax]
      refine TableStep.of_error (.refl _) hfinds fun h => ?_
      have := (h.2.2.2.1 hmax.1).1
      omega
    rw [if_neg hmax]
    by_cases hgrow : findUnused objects = none ∧ ¬ a.grows = true
    · rw [if_pos hgrow]
      exact TableStep.of_error (.refl _) hfinds fun h => hgrow.2 (h.2.2.2.1 hgrow.1).2
    rw [if_neg hgrow]
    by_cases hal : a.allocates = true
    swap
    · rw [if_pos hal]
      exact TableStep.of_error (.place _ rfl) hfinds fun h => hal h.2.2.2.2
    rw [if_neg (not_not.2 hal)]
    refine .of_made rfl rfl ⟨hn, hfind, hcreat, fun hnone => ⟨?_, ?_⟩, hal⟩ hfinds trivial
    · by_contra hlen
      exact hmax ⟨hnone, by omega⟩
    · by_contra hno
      exact hgrow ⟨hnone, hno⟩

/-- When `msgget` finds a queue, and when it makes one. -/
def msggetRequest (objects : List SysVIpcMsgQueue) (a : MsggetArgs) : GetRequest where
  finds i := findExisting objects a.key = some i ∧
    ¬ (HasFlag a.flg IPC_CREAT ∧ HasFlag a.flg IPC_EXCL)
  makes := findExisting objects a.key = none ∧ HasFlag a.flg IPC_CREAT ∧
    (findUnused objects = none → a.grows = true) ∧ a.allocates = true
  answers := True

theorem msgget_tableStep (objects : List SysVIpcMsgQueue) (a : MsggetArgs) :
    TableStep objects (some (msggetRequest objects a)) (msgget objects a).1
      (issuedId (msgget objects a)) := by
  unfold msgget
  cases hfind : findExisting objects a.key with
  | some i =>
    obtain ⟨o, ho, hv⟩ := findExisting_eq_some hfind
    obtain ⟨hthere, hone⟩ := found_of_eq_some hfind
    have hmakes : ¬ (msggetRequest objects a).makes := fun h => hthere h.1
    dsimp only
    by_cases hexcl : HasFlag a.flg IPC_CREAT ∧ HasFlag a.flg IPC_EXCL
    · rw [if_pos hexcl]
      exact TableStep.of_error (.refl _) (fun i h => h.2 hexcl) hmakes
    · rw [if_neg hexcl]
      exact .of_found ho hv ⟨hfind, hexcl⟩ (fun j h => hone j h.1) hmakes
  | none =>
    have hfinds : ∀ i, ¬ (msggetRequest objects a).finds i := fun i h =>
      Option.eq_none_iff_forall_ne_some.1 hfind i h.1
    dsimp only
    by_cases hcreat : HasFlag a.flg IPC_CREAT
    swap
    · rw [if_pos hcreat]
      exact TableStep.of_error (.refl _) hfinds fun h => hcreat h.2.1
    rw [if_neg (not_not.2 hcreat)]
    by_cases hgrow : findUnused objects = none ∧ ¬ a.grows = true
    · rw [if_pos hgrow]
      exact TableStep.of_error (.refl _) hfinds fun h => hgrow.2 (h.2.2.1 hgrow.1)
    rw [if_neg hgrow]
    by_cases hal : a.allocates = true
    swap
    · rw [if_pos hal]
      exact TableStep.of_error (.place _ rfl) hfinds fun h => hal h.2.2.2
    rw [if_neg (not_not.2 hal)]
    refine .of_made rfl rfl ⟨hfind, hcreat, fun hnone => ?_, hal⟩ hfinds trivial
    by_contra hno
    exact hgrow ⟨hnone, hno⟩

/-- When `shmget` finds a segment, when it makes one, and when it then answers its id. -/
def shmgetRequest (objects : List SysVIpcSharedMem) (a : ShmgetArgs) : GetRequest where
  finds i := findExisting objects a.key = some i ∧
    ¬ (HasFlag a.flg IPC_CREAT ∧ HasFlag a.flg IPC_EXCL) ∧
    ∀ o, objects[i]? = some o → a.size = 0 ∨ a.size.toNat = o.content.shmSegsz
  makes := findExisting objects a.key = none ∧ HasFlag a.flg IPC_CREAT ∧
    a.size.toNat ≤ SYSVIPC_MAX_SHM_SIZE ∧ (findUnused objects = none → a.grows = true) ∧
    0 ≤ a.helperFd
  answers := a.allocates = true

theorem shmget_tableStep (objects : List SysVIpcSharedMem) (a : ShmgetArgs) :
    TableStep objects (some (shmgetRequest objects a)) (shmget objects a).1
      (issuedId (shmget objects a)) := by
  unfold shmget
  cases hfind : findExisting objects a.key with
  | some i =>
    obtain ⟨o, ho, hv⟩ := findExisting_eq_some hfind
    obtain ⟨hthere, hone⟩ := found_of_eq_some hfind
    have hmakes : ¬ (shmgetRequest objects a).makes := fun h => hthere h.1
    have honly : ∀ j, (shmgetRequest objects a).finds j → j = i := fun j h => hone j h.1
    dsimp only
    by_cases hexcl : HasFlag a.flg IPC_CREAT ∧ HasFlag a.flg IPC_EXCL
    · rw [if_pos hexcl]
      exact TableStep.of_error (.refl _) (fun i h => h.2.1 hexcl) hmakes
    rw [if_neg hexcl, ho]
    dsimp only
    by_cases hsize : a.size ≠ 0 ∧ a.size.toNat ≠ o.content.shmSegsz
    · rw [if_pos hsize]
      refine TableStep.of_error (.refl _) (fun j h => ?_) hmakes
      rcases h.2.2 o (honly j h ▸ ho) with hzero | heq
      · exact hsize.1 hzero
      · exact hsize.2 heq
    · rw [if_neg hsize]
      refine .of_found ho hv ⟨hfind, hexcl, fun o' ho' => ?_⟩ honly hmakes
      rw [ho, Option.some.injEq] at ho'
      rw [← ho']
      by_contra hno
      rw [not_or] at hno
      exact hsize hno
  | none =>
    have hfinds : ∀ i, ¬ (shmgetRequest objects a).finds i := fun i h =>
      Option.eq_none_iff_forall_ne_some.1 hfind i h.1
    dsimp only
    by_cases hcreat : HasFlag a.flg IPC_CREAT
    swap
    · rw [if_pos hcreat]
      exact TableStep.of_error (.refl _) hfinds fun h => hcreat h.2.1
    rw [if_neg (not_not.2 hcreat)]
    by_cases hsize : SYSVIPC_MAX_SHM_SIZE < a.size.toNat
    · rw [if_pos hsize]
      exact TableStep.of_error (.refl _) hfinds fun h => absurd h.2.2.1 (by omega)
    rw [if_neg hsize]
    by_cases hgrow : findUnused objects = none ∧ ¬ a.grows = true
    · rw [if_pos hgrow]
      exact TableStep.of_error (.refl _) hfinds fun h => hgrow.2 (h.2.2.2.1 hgrow.1)
    rw [if_neg hgrow]
    by_cases hfd : a.helperFd < 0
    · rw [if_pos hfd]
      exact TableStep.of_error (.place _ rfl) hfinds fun h => absurd h.2.2.2.2 (by omega)
    rw [if_neg hfd]
    have hmakes : (shmgetRequest objects a).makes :=
      ⟨hfind, hcreat, by omega, fun hnone => (by
        by_contra hno
        exact hgrow ⟨hnone, hno⟩), by omega⟩
    by_cases hal : a.allocates = true
    · rw [if_pos hal]
      exact .of_made rfl rfl hmakes hfinds hal
    · rw [if_neg hal]
      exact .lost rfl rfl hmakes hfinds hal

/-! ### Semaphore sets -/

/-- The `semget` of an event. -/
def semRequest (w : SemWorld) : SemEvent → Option GetRequest
  | .call pid _ (.semget a) =>
    if callerOf pid w.tracees = none then none else some (semgetRequest w.semaphores a)
  | _ => none

/-- The id that an event answers. -/
def semIssues (w : SemWorld) : SemEvent → Option (ℕ × BitVec 32)
  | .call pid _ (.semget a) =>
    if callerOf pid w.tracees = none then none else issuedId (semget w.semaphores a)
  | _ => none

theorem kept_semop (w : SemWorld) (pid : ℕ) (a : SemopArgs) :
    Kept w.semaphores (semop w pid a).1.semaphores := by
  unfold semop
  split
  · exact .refl _
  · exact .modify _ _ fun _ hv => ⟨hv, rfl⟩

theorem kept_semctl (w : SemWorld) (a : SemctlArgs) :
    Kept w.semaphores (semctl w a).1.semaphores := by
  unfold semctl
  split
  · exact .refl _
  · split
    · exact .refl _
    · dsimp only
      split_ifs <;>
        first
        | exact .refl _
        | exact .modify _ _ fun _ hv => ⟨hv, rfl⟩
        | exact .removed _ _ _

theorem sem_tableStep (w : SemWorld) (e : SemEvent) :
    TableStep w.semaphores (semRequest w e) (w.step e).semaphores (semIssues w e) := by
  have hsame : TableStep w.semaphores none w.semaphores none := .quiet (.refl _) nofun
  cases e with
  | call pid fromSigsys call =>
    cases hcaller : callerOf pid w.tracees with
    | none =>
      cases call <;> simp only [SemWorld.step, semRequest, semIssues, hcaller, if_true] <;>
        exact hsame
    | some c =>
      cases call with
      | semget a =>
        simp only [SemWorld.step, semRequest, semIssues, hcaller, reduceCtorEq, if_false]
        exact semget_tableStep w.semaphores a
      | semop a =>
        simp only [SemWorld.step, hcaller]
        exact .quiet (kept_semop w pid a) nofun
      | semctl a =>
        simp only [SemWorld.step, hcaller]
        exact .quiet (kept_semctl w a) nofun
  | _ => exact hsame

/-- The sets of a namespace. -/
def semIds : IdSystem SemWorld SemEvent (List ℕ) where
  step := SemWorld.step
  table := SemWorld.semaphores
  request := semRequest
  issues := semIssues
  sound := sem_tableStep

/-! ### Message queues -/

/-- The `msgget` of an event. -/
def msgRequest (w : MsgWorld) : MsgEvent → Option GetRequest
  | .call pid _ (.msgget a) =>
    if w.aborted ∨ callerOf pid w.tracees = none then none
    else some (msggetRequest w.queues a)
  | _ => none

/-- The id that an event answers. -/
def msgIssues (w : MsgWorld) : MsgEvent → Option (ℕ × BitVec 32)
  | .call pid _ (.msgget a) =>
    if w.aborted ∨ callerOf pid w.tracees = none then none else issuedId (msgget w.queues a)
  | _ => none

theorem kept_msgrcvRetry (w : MsgWorld) (c : IpcTracee) (unwritable : Option ℤ) :
    Kept w.queues (msgrcvRetry w c unwritable).1.queues := by
  unfold msgrcvRetry
  split
  · split
    · exact .refl _
    · split
      · dsimp only
        exact Kept.modifyContent w.queues _ _
      · exact .refl _
  · exact .refl _

theorem kept_resume (w : MsgWorld) (c : IpcTracee) (unwritable : Option ℤ) :
    Kept w.queues (w.resume c unwritable).1.queues := by
  unfold MsgWorld.resume
  dsimp only
  split
  · exact kept_msgrcvRetry w c unwritable
  · exact .refl _

theorem kept_msgCall (w : MsgWorld) (pid : ℕ) (call : MsgCall)
    (h : ∀ a, call ≠ .msgget a) : Kept w.queues (w.handle pid call).1.queues := by
  cases call with
  | msgget a => exact absurd rfl (h a)
  | msgsnd a =>
    unfold MsgWorld.handle msgsnd
    dsimp only
    split
    · exact .refl _
    · dsimp only
      exact Kept.modifyContent w.queues _ _
  | msgrcv msqid msgp msgsz msgtyp msgflg unwritable =>
    unfold MsgWorld.handle msgrcv
    dsimp only
    split
    · exact .refl _
    · split
      · exact .refl _
      · dsimp only
        exact Kept.modifyContent w.queues _ _
  | msgctl a =>
    unfold MsgWorld.handle msgctl
    dsimp only
    split
    · exact .refl _
    · split_ifs
      · exact .removed w.queues _ _
      · exact .refl _
      · exact .refl _
      · exact .refl _

theorem msg_tableStep (w : MsgWorld) (e : MsgEvent) :
    TableStep w.queues (msgRequest w e) (w.step e).1.queues (msgIssues w e) := by
  have hsame : TableStep w.queues none w.queues none := .quiet (.refl _) nofun
  by_cases hab : w.aborted = true
  · have hstep : (w.step e).1 = w := by rw [MsgWorld.step.eq_def, if_pos hab]
    rw [hstep]
    rcases e with ⟨_, _, _ | _ | _ | _⟩ | _ | _ | _ | _ <;>
      simp only [msgRequest, msgIssues, hab, true_or, if_true] <;> exact hsame
  rw [MsgWorld.step.eq_def, if_neg hab]
  cases e with
  | call pid fromSigsys call =>
    cases hcaller : callerOf pid w.tracees with
    | none =>
      cases call <;> simp only [msgRequest, msgIssues, hcaller, or_true, if_true] <;> exact hsame
    | some c =>
      cases call with
      | msgget a =>
        simp only [msgRequest, msgIssues, hcaller, hab, reduceCtorEq, or_false, if_false]
        exact msgget_tableStep w.queues a
      | msgsnd a =>
        simp only [hcaller]
        exact .quiet (kept_msgCall w pid (.msgsnd a) nofun) nofun
      | msgrcv msqid msgp msgsz msgtyp msgflg unwritable =>
        simp only [hcaller]
        exact .quiet
          (kept_msgCall w pid (.msgrcv msqid msgp msgsz msgtyp msgflg unwritable) nofun) nofun
      | msgctl a =>
        simp only [hcaller]
        exact .quiet (kept_msgCall w pid (.msgctl a) nofun) nofun
  | enter pid unwritable =>
    refine .quiet ?_ nofun
    dsimp only
    split
    · exact .refl _
    · split
      · exact kept_resume w _ unwritable
      · exact .refl _
  | leave pid unwritable =>
    refine .quiet ?_ nofun
    dsimp only
    split
    · exact .refl _
    · split
      · exact kept_resume w _ unwritable
      · exact .refl _
  | clone parent child thread => exact hsame
  | exit pid => exact hsame

/-- The queues of a namespace. -/
def msgIds : IdSystem MsgWorld MsgEvent MsgQueueContent where
  step := fun w e => (w.step e).1
  table := MsgWorld.queues
  request := msgRequest
  issues := msgIssues
  sound := msg_tableStep

/-! ### Shared memory segments -/

/-- The `shmget` of an event. -/
def shmRequest (w : ShmWorld) : ShmEvent → Option GetRequest
  | .call pid _ (.shmget a) =>
    if w.crashed ∨ w.caller pid = none then none else some (shmgetRequest w.shms a)
  | _ => none

/-- The id that an event answers. -/
def shmIssues (w : ShmWorld) : ShmEvent → Option (ℕ × BitVec 32)
  | .call pid _ (.shmget a) =>
    if w.crashed ∨ w.caller pid = none then none else issuedId (shmget w.shms a)
  | _ => none

theorem kept_settle (w : ShmWorld) (idx : ℕ) : Kept w.shms (settle w idx).shms := by
  unfold settle
  split
  · exact .refl _
  · split
    · exact .modify _ _ fun _ hv => nomatch hv
    · exact .refl _

theorem kept_foldl_releaseMap (ms : List SysVIpcSharedMemMap) (w : ShmWorld) :
    Kept w.shms (ms.foldl releaseMap w).shms := by
  induction ms generalizing w with
  | nil => exact .refl _
  | cons m ms ih => exact (kept_settle { w with maps := w.maps.erase m } m.shmIndex).trans (ih _)

theorem kept_shmCall (w : ShmWorld) (c : IpcTracee) (call : ShmCall)
    (h : ∀ a, call ≠ .shmget a) : Kept w.shms (w.handle c call).1.shms := by
  cases call with
  | shmget a => exact absurd rfl (h a)
  | shmat shmid allocates =>
    unfold ShmWorld.handle ShmWorld.shmat
    dsimp only
    split
    · exact .refl _
    · split_ifs
      · split
        · exact .refl _
        · split_ifs <;> exact .refl _
      · exact .refl _
  | shmdt addr =>
    unfold ShmWorld.handle ShmWorld.shmdt
    dsimp only
    split
    · exact .refl _
    · exact kept_settle _ _
  | shmctl a =>
    unfold ShmWorld.handle ShmWorld.shmctl
    dsimp only
    split
    · exact .refl _
    · split
      · exact .refl _
      · split_ifs
        · exact .refl _
        · exact .modify w.shms _ fun _ (hv : false = true) => nomatch hv
        · dsimp only
          exact Kept.modifyContent w.shms _ _
        · dsimp only
          exact Kept.modifyContent w.shms _ _
        · exact .refl _

theorem kept_shmatChain (w : ShmWorld) (c : IpcTracee) (s : ShmatStop) :
    Kept w.shms (w.shmatChain c s).shms := by
  unfold ShmWorld.shmatChain
  split
  · exact .refl _
  · split
    · exact .refl _
    · split
      · exact .refl _
      · split <;> exact .refl _
      · split
        · exact .refl _
        · exact kept_settle _ _

theorem shm_tableStep (w : ShmWorld) (e : ShmEvent) :
    TableStep w.shms (shmRequest w e) (w.step e).shms (shmIssues w e) := by
  have hsame : TableStep w.shms none w.shms none := .quiet (.refl _) nofun
  by_cases hcr : w.crashed = true
  · have hstep : w.step e = w := by rw [ShmWorld.step.eq_def, if_pos hcr]
    rw [hstep]
    rcases e with ⟨_, _, _ | _ | _ | _⟩ | _ | _ | _ | _ | _ <;>
      simp only [shmRequest, shmIssues, hcr, true_or, if_true] <;> exact hsame
  rw [ShmWorld.step.eq_def, if_neg hcr]
  cases e with
  | call pid fromSigsys call =>
    cases hcaller : w.caller pid with
    | none =>
      cases call <;> simp only [shmRequest, shmIssues, hcaller, or_true, if_true] <;> exact hsame
    | some c =>
      cases call with
      | shmget a =>
        simp only [shmRequest, shmIssues, hcaller, hcr, reduceCtorEq, or_false, if_false]
        exact shmget_tableStep w.shms a
      | shmat shmid allocates =>
        simp only [hcaller]
        exact .quiet (kept_shmCall w c (.shmat shmid allocates) nofun) nofun
      | shmdt addr =>
        simp only [hcaller]
        exact .quiet (kept_shmCall w c (.shmdt addr) nofun) nofun
      | shmctl a =>
        simp only [hcaller]
        exact .quiet (kept_shmCall w c (.shmctl a) nofun) nofun
  | enter pid => exact hsame
  | leave pid s =>
    refine .quiet ?_ nofun
    dsimp only
    split
    · exact .refl _
    · split
      · split
        · exact kept_shmatChain w _ s
        · exact .refl _
      · exact .refl _
  | clone parent child thread copied =>
    refine .quiet ?_ nofun
    dsimp only
    split
    · exact .refl _
    · split <;> exact .refl _
  | execve pid succeeds =>
    refine .quiet ?_ nofun
    dsimp only
    split
    · exact .refl _
    · exact kept_foldl_releaseMap _ _
  | exit pid =>
    refine .quiet ?_ nofun
    dsimp only
    split
    · exact .refl _
    · unfold ShmWorld.endProcess
      split
      · exact .refl _
      · exact kept_foldl_releaseMap _ _

/-- The segments of a namespace. -/
def shmIds : IdSystem ShmWorld ShmEvent SharedMemContent where
  step := ShmWorld.step
  table := ShmWorld.shms
  request := shmRequest
  issues := shmIssues
  sound := shm_tableStep

/-! ### Ids over runs -/

/-- In the runs of a namespace the ids of sets, of queues and of segments never alias exactly
when all of them are fresh. -/
theorem ids_never_alias_iff (pid : ℕ) :
    (∀ events, (∀ r ∈ states semIds.idStep (IdSystem.start (SemWorld.initial pid)) events,
        semIds.NoAlias r) ↔
      AllSteps semIds.idStep semIds.FreshIds (IdSystem.start (SemWorld.initial pid)) events) ∧
    (∀ events, (∀ r ∈ states msgIds.idStep (IdSystem.start (MsgWorld.initial pid)) events,
        msgIds.NoAlias r) ↔
      AllSteps msgIds.idStep msgIds.FreshIds (IdSystem.start (MsgWorld.initial pid)) events) ∧
    ∀ events, (∀ r ∈ states shmIds.idStep (IdSystem.start (ShmWorld.initial pid)) events,
        shmIds.NoAlias r) ↔
      AllSteps shmIds.idStep shmIds.FreshIds (IdSystem.start (ShmWorld.initial pid)) events :=
  ⟨IdSystem.noAlias_iff nofun, IdSystem.noAlias_iff nofun, IdSystem.noAlias_iff nofun⟩

/-- A set is made, removed and made again: the id of the first names the second. -/
theorem removed_id_names_next :
    ¬ ∀ (pid : ℕ) (events : List SemEvent),
      ∀ r ∈ states semIds.idStep (IdSystem.start (SemWorld.initial pid)) events,
        semIds.NoAlias r := by
  intro h
  have hrun := h 1 [.call 1 false (.semget ⟨0, 1, IPC_CREAT, true, true⟩), .leave 1,
    .call 1 false (.semctl ⟨1, 0, 0, 0, 0⟩), .leave 1,
    .call 1 false (.semget ⟨0, 1, IPC_CREAT, true, true⟩)] _
    (foldl_mem_states semIds.idStep _ _)
  have hgone := hrun.gone ⟨1, 0, 1⟩ (by decide +kernel) (by decide +kernel) (by decide +kernel)
  revert hgone
  decide +kernel

end NeoProot.SysVIpc
