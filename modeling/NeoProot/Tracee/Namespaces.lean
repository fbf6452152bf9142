import NeoProot.Syscall.GuestCalls

/-!
# The tables of all tracees

Tracees share a binding table until one of them gets a table of its own.  A table goes with
the lists, so it lives in as many tracees as share it; the bindings of the life context of a
tracee, which stand for its `/proc/<pid>/auxv`, go with the tracee.  When the tracee ends
they are taken off through the table that the tracee has then.

## Main definitions

* `TableHolder`, `Tables` — a tracee as far as tables are concerned, and all tables.
* `TablesOp`, `Tables.step` — what a tracee does.
* `Tables.KeepsCaches` — the steps that drop every cache they make stale.
* `Tables.run_answers` — over runs of such steps, lookups answer from the current lists.
-/

namespace NeoProot
open Segments

/-- A tracee: its pid, its table, and the bindings of its `life_context`, each with the
table it was linked in. -/
structure TableHolder where
  pid : ℕ
  table : ℕ
  lifeContext : List (ℕ × ℕ)
  deriving DecidableEq, Repr

/-- The tables and the tracees. -/
structure Tables where
  tables : List CachedBindings
  tracees : List TableHolder
  deriving DecidableEq, Repr

/-- What the tracee at a position does. -/
inductive TablesOp
  | call (i : ℕ) (call : TableCall)
  /-- `execve`, with the temporary file of the auxiliary vector. -/
  | execve (i : ℕ) (auxvHost : Option CStr)
  /-- `clone`: the new tracee shares the table, or gets a copy if `CLONE_NEWNS` was asked
  for. -/
  | clone (i pid : ℕ) (newNamespace : Bool)
  /-- `unshare` with `CLONE_NEWNS`. -/
  | unshare (i : ℕ)
  /-- The `chroot` of `fake_id0`. -/
  | chroot (i : ℕ) (host : CStr)
  /-- The end of the tracee. -/
  | exit (i : ℕ)
  deriving DecidableEq, Repr

/-- The guest path of the auxiliary vector of a process. -/
def auxvPath (pid : ℕ) : CStr := procPath pid ++ str "/auxv"

namespace CachedBindings

/-- The beginning of `bind_proc_pid_auxv`: the binding of an earlier `execve` goes. -/
def unbindProcPidAuxv (c : CachedBindings) (pid : ℕ) : CachedBindings :=
  match c.getBinding .guest (auxvPath pid) with
  | (none, c) => c
  | (some binding, c) =>
    if comparePaths binding.guest (auxvPath pid) = .pathsAreEqual then
      c.change (·.removeBindingFromAllLists binding.addr)
    else c

/-- `bind_proc_pid_auxv`: the table, and the new binding. -/
def bindProcPidAuxv (c : CachedBindings) (pid : ℕ) (auxvHost : Option CStr) :
    CachedBindings × Option ℕ :=
  let c := c.unbindProcPidAuxv pid
  match auxvHost with
  | none => (c, none)
  | some host =>
    (c.change fun t => (t.insortBinding4 host (auxvPath pid) .internal).1,
      some (c.bindings.insortBinding4 host (auxvPath pid) .internal).2.addr)

/-- The table behind `initialize_bindings`, for a root alone. -/
def ofRoot (host : CStr) : CachedBindings :=
  buildGuestBindingCache ⟨.ofRoot host, none, none⟩

end CachedBindings

namespace Tables

/-- One tracee with a root of its own. -/
def start (pid : ℕ) (host : CStr) : Tables := ⟨[.ofRoot host], [⟨pid, 0, []⟩]⟩

/-- `remove_binding_from_all_lists`, called for a tracee with the table `own`: the cache of
that table is dropped, and the binding leaves the lists that it is linked in. -/
def cleanLifeSpanObject (own : ℕ) (tables : List CachedBindings) (b : ℕ × ℕ) : List CachedBindings :=
  (tables.modify own CachedBindings.invalidate).modify b.1 fun c =>
    ⟨c.bindings.removeBindingFromAllLists b.2, c.entries, c.cachedRoot⟩

/-- A step of a tracee that has a table. -/
def stepOf (s : Tables) (i : ℕ) (tr : TableHolder) (c : CachedBindings) : TablesOp → Tables
  | .call _ call => ⟨s.tables.modify tr.table (·.call call), s.tracees⟩
  | .execve _ auxvHost =>
    let (c, b) := c.bindProcPidAuxv tr.pid auxvHost
    ⟨s.tables.set tr.table c,
      s.tracees.set i { tr with lifeContext := b.toList.map (tr.table, ·) ++ tr.lifeContext }⟩
  | .clone _ pid false => ⟨s.tables, s.tracees ++ [⟨pid, tr.table, []⟩]⟩
  | .clone _ pid true =>
    ⟨s.tables ++ [⟨c.bindings.copyNamespace, none, none⟩], s.tracees ++ [⟨pid, s.tables.length, []⟩]⟩
  | .unshare _ =>
    ⟨s.tables ++ [⟨c.bindings.copyNamespace, none, none⟩],
      s.tracees.set i { tr with table := s.tables.length }⟩
  | .chroot _ host =>
    ⟨s.tables ++ [.ofRoot host], s.tracees.set i { tr with table := s.tables.length }⟩
  | .exit _ => ⟨tr.lifeContext.foldl (cleanLifeSpanObject tr.table) s.tables, s.tracees.eraseIdx i⟩

end Tables

/-- The position of the tracee that takes a step. -/
def TablesOp.tracee : TablesOp → ℕ
  | .call i _ | .execve i _ | .clone i _ _ | .unshare i | .chroot i _ | .exit i => i

namespace Tables

/-- One step. -/
def step (s : Tables) (op : TablesOp) : Tables :=
  match s.tracees[op.tracee]? with
  | none => s
  | some tr =>
    match s.tables[tr.table]? with
    | none => s
    | some c => s.stepOf op.tracee tr c op

/-- A binding of a life context is linked in a table. -/
def Linked (s : Tables) (b : ℕ × ℕ) : Prop :=
  ∃ c ∈ s.tables[b.1]?, ∃ x ∈ c.bindings.guest ++ c.bindings.host ++ c.bindings.pending, x.addr = b.2

instance (s : Tables) (b : ℕ × ℕ) : Decidable (s.Linked b) :=
  inferInstanceAs (Decidable (∃ c ∈ s.tables[b.1]?, ∃ x ∈ _, _))

/-- The paths that a step inserts are canonical, and a tracee that ends has no binding of
its life context linked in a table other than its own. -/
def KeepsCaches (s : Tables) : TablesOp → Prop
  | .call _ call => call.Canonical
  | .exit i => ∀ tr ∈ s.tracees[i]?, ∀ b ∈ tr.lifeContext, s.Linked b → b.1 = tr.table
  | _ => True

instance (s : Tables) : DecidablePred s.KeepsCaches
  | .call _ call => inferInstanceAs (Decidable call.Canonical)
  | .exit i => inferInstanceAs (Decidable (∀ tr ∈ s.tracees[i]?, ∀ b ∈ tr.lifeContext, _ → _))
  | .execve _ _ | .clone _ _ _ | .unshare _ | .chroot _ _ => inferInstanceAs (Decidable True)

end Tables

/-! ### The auxiliary vector -/

theorem auxvPath_canonical (pid : ℕ) : IsCanonical (auxvPath pid) ∧ auxvPath pid ≠ ['/'] := by
  have hdigits : str (toString (pid : ℤ)) = Nat.toDigits 10 pid := Nat.toList_repr
  have hname : ∀ c ∈ [str "proc", str (toString (pid : ℤ)), str "auxv"], IsName c := by
    intro c hc
    simp only [List.mem_cons, List.not_mem_nil, or_false] at hc
    obtain rfl | rfl | rfl := hc
    · exact ⟨by decide, by decide⟩
    · rw [hdigits]
      refine ⟨Nat.toDigits_ne_nil, fun hslash => ?_⟩
      have hdigit := Nat.isDigit_of_mem_toDigits (by decide) (by decide) hslash
      exact absurd hdigit (by decide)
    · exact ⟨by decide, by decide⟩
  have hrender : auxvPath pid = render [str "proc", str (toString (pid : ℤ)), str "auxv"] := by
    simp [auxvPath, procPath, render, str, flat]
  rw [hrender]
  refine ⟨render_canonical hname, fun hroot => ?_⟩
  have hcomps := congrArg (fun path => (comps path).length) hroot
  rw [comps_render hname] at hcomps
  exact absurd hcomps (Nat.succ_ne_zero 2)

namespace CachedBindings

variable {c : CachedBindings}

theorem Kept.unbindProcPidAuxv (h : c.Kept) (pid : ℕ) :
    (c.unbindProcPidAuxv pid).Kept ∧ c.bindings.LayersFrom (c.unbindProcPidAuxv pid).bindings := by
  obtain ⟨hcan, hroot⟩ := auxvPath_canonical pid
  simp only [CachedBindings.unbindProcPidAuxv]
  cases hget : c.getBinding .guest (auxvPath pid) with
  | mk found c' =>
    obtain ⟨hbind, hkept, hfound⟩ := h.getBinding hget
    cases found with
    | none => exact h.same hkept.coherent hbind
    | some b =>
      by_cases hsame : comparePaths b.guest (auxvPath pid) = .pathsAreEqual
      · simp only [hsame, if_true]
        have hb := (hfound rfl hcan.1 b rfl).1
        rw [← hbind] at hb ⊢
        refine hkept.change (f := fun t => t.removeBindingFromAllLists b.addr)
          (Bindings.steady_removeBindingFromAllLists fun x hx hxr haddr => hroot ?_)
        have hbc := hkept.guest.canonical b hb
        rw [comparePaths, Bindings.comparePaths2_eq_equal_iff hbc.1 hcan.1] at hsame
        rw [← canonical_ext hbc hcan hsame, ← hkept.guest.eq_of_addr hx hb haddr]
        exact hxr
      · simp only [hsame, if_false]
        exact h.same hkept.coherent hbind

theorem Kept.bindProcPidAuxv (h : c.Kept) (pid : ℕ) (auxvHost : Option CStr) :
    (c.bindProcPidAuxv pid auxvHost).1.Kept ∧
      c.bindings.LayersFrom (c.bindProcPidAuxv pid auxvHost).1.bindings ∧
      ∀ addr ∈ (c.bindProcPidAuxv pid auxvHost).2,
        addr < (c.bindProcPidAuxv pid auxvHost).1.bindings.fresh ∧
          ∀ l ∈ (c.bindProcPidAuxv pid auxvHost).1.bindings.layers, l.addr = addr →
            l.guest ≠ ['/'] := by
  obtain ⟨hcan, hroot⟩ := auxvPath_canonical pid
  obtain ⟨hkept, hfrom⟩ := h.unbindProcPidAuxv pid
  simp only [CachedBindings.bindProcPidAuxv]
  cases auxvHost with
  | none => exact ⟨hkept, hfrom, by simp⟩
  | some host =>
    obtain ⟨hk, hf⟩ := hkept.change
      (f := fun t => (t.insortBinding4 host (auxvPath pid) .internal).1)
      (Bindings.steady_insortBinding4 _ host hcan .internal)
    refine ⟨hk, hfrom.trans hf, fun addr haddr => ?_⟩
    obtain rfl := Option.some.inj (Option.mem_def.1 haddr)
    obtain ⟨hlt, hguest⟩ := hkept.guest.insortBinding4_snd host .internal hcan
    exact ⟨hlt, fun l hl heq hlr => hroot ((hguest l hl heq).symm.trans hlr)⟩

theorem ofRoot_kept (host : CStr) : (CachedBindings.ofRoot host).Kept := by
  obtain ⟨hguest, hlast⟩ := Bindings.ofRoot_kept host
  have hne : (Bindings.ofRoot host).guest ≠ [] := by
    obtain ⟨l, root, hl, -⟩ := hlast
    simp [hl]
  have hempty : (⟨Bindings.ofRoot host, none, none⟩ : CachedBindings).Coherent := ⟨by simp, by simp⟩
  obtain ⟨hcoherent, hbind, -⟩ := hempty.build hne
  exact ⟨hcoherent, hbind ▸ hguest, hbind ▸ hlast⟩

theorem Kept.copyNamespace (h : c.Kept) :
    (⟨c.bindings.copyNamespace, none, none⟩ : CachedBindings).Kept := by
  obtain ⟨hguest, hlast⟩ := Bindings.copyNamespace_kept h.guest h.root
  exact ⟨⟨by simp, by simp⟩, hguest, hlast⟩

end CachedBindings

/-! ### The invariant -/

namespace Tables

/-- How the tables of a state come from those of an earlier one. -/
def From (ts ts' : List CachedBindings) : Prop :=
  ∀ (k : ℕ) (c : CachedBindings), ts[k]? = some c →
    ∃ c' : CachedBindings, ts'[k]? = some c' ∧ c.bindings.LayersFrom c'.bindings

/-- A binding of a life context is not on the root. -/
def OffRoot (ts : List CachedBindings) (b : ℕ × ℕ) : Prop :=
  ∃ c, ts[b.1]? = some c ∧ b.2 < c.bindings.fresh ∧ ∀ l ∈ c.bindings.layers, l.addr = b.2 →
    l.guest ≠ ['/']

/-- The invariant of the runs. -/
structure Kept (s : Tables) : Prop where
  tables : ∀ c ∈ s.tables, c.Kept
  tracees : ∀ tr ∈ s.tracees, tr.table < s.tables.length
  life : ∀ tr ∈ s.tracees, ∀ b ∈ tr.lifeContext, OffRoot s.tables b

variable {ts ts' : List CachedBindings} {c c' : CachedBindings} {k : ℕ}

theorem getElem?_modify_self (ts : List CachedBindings) (k : ℕ) (f : CachedBindings → CachedBindings) :
    (ts.modify k f)[k]? = ts[k]?.map f := by
  rw [List.getElem?_modify_eq]
  rfl

theorem From.refl (ts : List CachedBindings) : From ts ts := fun _ c hc => ⟨c, hc, .refl _⟩

theorem From.trans {ts'' : List CachedBindings} (h : From ts ts') (h' : From ts' ts'') :
    From ts ts'' := by
  intro k c hc
  obtain ⟨c', hc', hfrom⟩ := h k c hc
  obtain ⟨c'', hc'', hfrom'⟩ := h' k c' hc'
  exact ⟨c'', hc'', hfrom.trans hfrom'⟩

theorem From.append (ts us : List CachedBindings) : From ts (ts ++ us) := by
  intro k c hc
  refine ⟨c, ?_, .refl _⟩
  rw [List.getElem?_append_left (List.getElem?_eq_some_iff.1 hc).1, hc]

theorem From.modify {f : CachedBindings → CachedBindings}
    (hf : ∀ c, ts[k]? = some c → c.bindings.LayersFrom (f c).bindings) : From ts (ts.modify k f) := by
  intro j c hc
  by_cases hk : k = j
  · subst hk
    exact ⟨f c, by rw [getElem?_modify_self, hc, Option.map_some], hf c hc⟩
  · exact ⟨c, by rw [List.getElem?_modify_ne _ _ hk, hc], .refl _⟩

theorem From.set (hc : ts[k]? = some c) (hfrom : c.bindings.LayersFrom c'.bindings) :
    From ts (ts.set k c') := by
  intro j d hd
  by_cases hk : k = j
  · subst hk
    rw [hc, Option.some.injEq] at hd
    subst hd
    refine ⟨c', ?_, hfrom⟩
    rw [List.getElem?_set_self (List.getElem?_eq_some_iff.1 hc).1]
  · exact ⟨d, by rw [List.getElem?_set_ne hk, hd], .refl _⟩

theorem From.length_le (h : From ts ts') : ts.length ≤ ts'.length := by
  by_contra hlt
  have hget : ts[ts'.length]? = some (ts.get ⟨ts'.length, by omega⟩) :=
    List.getElem?_eq_getElem (by omega)
  obtain ⟨c', hc', -⟩ := h _ _ hget
  rw [List.getElem?_eq_none (le_refl _)] at hc'
  simp at hc'

theorem OffRoot.mono (hfrom : From ts ts') {b : ℕ × ℕ} (h : OffRoot ts b) : OffRoot ts' b := by
  obtain ⟨c, hc, hlt, hoff⟩ := h
  obtain ⟨c', hc', hlayers⟩ := hfrom b.1 c hc
  refine ⟨c', hc', lt_of_lt_of_le hlt hlayers.fresh, fun l hl heq => ?_⟩
  obtain ⟨l', hl', haddr, hguest⟩ := hlayers.old l hl (heq ▸ hlt)
  exact hguest ▸ hoff l' hl' (haddr.trans heq)

theorem mem_modify {f : CachedBindings → CachedBindings} (hc : c ∈ ts.modify k f) :
    c ∈ ts ∨ ∃ d, ts[k]? = some d ∧ c = f d := by
  obtain ⟨j, hj⟩ := List.mem_iff_getElem?.1 hc
  by_cases hk : k = j
  · subst hk
    rw [getElem?_modify_self, Option.map_eq_some_iff] at hj
    obtain ⟨d, hd, rfl⟩ := hj
    exact .inr ⟨d, hd, rfl⟩
  · rw [List.getElem?_modify_ne _ _ hk] at hj
    exact .inl (List.mem_of_getElem? hj)

/-- The end of a tracee whose life context is linked in its own table only. -/
theorem cleanLifeSpan_kept (own : ℕ) (hts : ∀ c ∈ ts, c.Kept) (l : List (ℕ × ℕ))
    (hoff : ∀ b ∈ l, OffRoot ts b)
    (hlinked : ∀ b ∈ l, b.1 ≠ own → ∀ c, ts[b.1]? = some c →
      ∀ x ∈ c.bindings.guest ++ c.bindings.host ++ c.bindings.pending, x.addr ≠ b.2) :
    (∀ c ∈ l.foldl (cleanLifeSpanObject own) ts, c.Kept) ∧
      From ts (l.foldl (cleanLifeSpanObject own) ts) := by
  induction l generalizing ts with
  | nil => exact ⟨hts, .refl ts⟩
  | cons b l ih =>
    have hinv : From ts (ts.modify own CachedBindings.invalidate) := From.modify fun c _ => .refl _
    have hinvKept : ∀ c ∈ ts.modify own CachedBindings.invalidate, c.Kept := by
      intro c hc
      obtain hc | ⟨d, hd, rfl⟩ := mem_modify hc
      · exact hts c hc
      · have hd' := hts d (List.mem_of_getElem? hd)
        exact ⟨⟨by simp [CachedBindings.invalidate], by simp [CachedBindings.invalidate]⟩,
          hd'.guest, hd'.root⟩
    generalize hus : ts.modify own CachedBindings.invalidate = us at hinv hinvKept
    have hstep : cleanLifeSpanObject own ts b = us.modify b.1 fun c =>
        ⟨c.bindings.removeBindingFromAllLists b.2, c.entries, c.cachedRoot⟩ := by
      rw [cleanLifeSpanObject, hus]
    have hsteady : ∀ c, us[b.1]? = some c →
        c.bindings.Steady (c.bindings.removeBindingFromAllLists b.2) := by
      intro c hc
      refine Bindings.steady_removeBindingFromAllLists fun x hx hxr heq => ?_
      obtain ⟨d, hd, -, hoffd⟩ := (hoff b (by simp)).mono hinv
      rw [hc, Option.some.injEq] at hd
      subst hd
      exact hoffd x.toLayer (Bindings.GuestKept.mem_layers hx) heq hxr
    have hother : ∀ j c, j ≠ own → us[j]? = some c → ts[j]? = some c := by
      intro j c hj hc
      rw [← hus, List.getElem?_modify_ne _ _ (Ne.symm hj)] at hc
      exact hc
    -- Off the own table the binding is not linked, and nothing changes.
    have hkeep : ∀ c, us[b.1]? = some c → b.1 ≠ own →
        c.bindings.removeBindingFromAllLists b.2 = c.bindings := by
      intro c hc hne
      have hnot := hlinked b (by simp) hne c (hother _ c hne hc)
      have hfilter : ∀ m : List Binding, (∀ x ∈ m, x.addr ≠ b.2) →
          m.filter (fun x => decide (x.addr ≠ b.2)) = m := fun m hm =>
        List.filter_eq_self.2 fun x hx => decide_eq_true (hm x hx)
      rw [Bindings.removeBindingFromAllLists, hfilter _ fun x hx => hnot x (by simp [hx]),
        hfilter _ fun x hx => hnot x (by simp [hx]), hfilter _ fun x hx => hnot x (by simp [hx])]
    have hfrom : From us (cleanLifeSpanObject own ts b) := by
      rw [hstep]
      exact From.modify fun c hc => (hsteady c hc (hinvKept c (List.mem_of_getElem? hc)).guest).2.1
    have hkept : ∀ c ∈ cleanLifeSpanObject own ts b, c.Kept := by
      intro c hc
      rw [hstep] at hc
      obtain hc | ⟨d, hd, rfl⟩ := mem_modify hc
      · exact hinvKept c hc
      · have hd' := hinvKept d (List.mem_of_getElem? hd)
        obtain ⟨hguest, -, hlast⟩ := hsteady d hd hd'.guest
        by_cases hown : b.1 = own
        · have hclean : d.entries = none ∧ d.cachedRoot = none := by
            rw [hown, ← hus, getElem?_modify_self, Option.map_eq_some_iff] at hd
            obtain ⟨e, -, rfl⟩ := hd
            exact ⟨rfl, rfl⟩
          exact ⟨⟨by simp [hclean.1], by simp [hclean.2]⟩, hguest, hlast hd'.root⟩
        · have hsame := hkeep d hd hown
          simp only [hsame]
          exact hd'
    have hall : From ts (cleanLifeSpanObject own ts b) := hinv.trans hfrom
    rw [List.foldl_cons]
    have hnext : ∀ b' ∈ l, b'.1 ≠ own → ∀ c, (cleanLifeSpanObject own ts b)[b'.1]? = some c →
        ∀ x ∈ c.bindings.guest ++ c.bindings.host ++ c.bindings.pending, x.addr ≠ b'.2 := by
      intro b' hb' hne c hc
      rw [hstep] at hc
      by_cases hbb : b.1 = b'.1
      · rw [← hbb, getElem?_modify_self, Option.map_eq_some_iff] at hc
        obtain ⟨d, hd, rfl⟩ := hc
        rw [← hbb] at hne
        have hnot := hlinked b' (by simp [hb']) (hbb ▸ hne) d (hbb ▸ hother _ d hne hd)
        rwa [hkeep d hd hne]
      · rw [List.getElem?_modify_ne _ _ hbb] at hc
        exact hlinked b' (by simp [hb']) hne c (hother _ c hne hc)
    obtain ⟨hend, hlast⟩ := ih hkept (fun b' hb' => (hoff b' (by simp [hb'])).mono hall) hnext
    exact ⟨hend, hall.trans hlast⟩

/-- **A step that keeps the caches keeps the invariant.** -/
theorem Kept.step {s : Tables} (h : s.Kept) {op : TablesOp} (hop : s.KeepsCaches op) :
    (s.step op).Kept := by
  simp only [Tables.step]
  cases htr : s.tracees[op.tracee]? with
  | none => exact h
  | some tr =>
    cases hc : s.tables[tr.table]? with
    | none =>
      simp only [hc]
      exact h
    | some c =>
      simp only [hc]
      have htrmem := List.mem_of_getElem? htr
      have hckept := h.tables c (List.mem_of_getElem? hc)
      have hlife : ∀ ts', From s.tables ts' → ∀ t ∈ s.tracees, ∀ b ∈ t.lifeContext, OffRoot ts' b :=
        fun ts' hfrom t ht b hb => (h.life t ht b hb).mono hfrom
      have hlength : ∀ ts', From s.tables ts' → ∀ t ∈ s.tracees, t.table < ts'.length :=
        fun ts' hfrom t ht => lt_of_lt_of_le (h.tracees t ht) hfrom.length_le
      -- A new table behind the others.
      have hnew : ∀ d : CachedBindings, d.Kept → (∀ e ∈ s.tables ++ [d], e.Kept) ∧
          From s.tables (s.tables ++ [d]) ∧ s.tables.length < (s.tables ++ [d]).length := by
        intro d hd
        refine ⟨fun e he => ?_, From.append _ _, by simp⟩
        obtain he | he := List.mem_append.1 he
        · exact h.tables e he
        · rwa [List.mem_singleton.1 he]
      have hset : ∀ {tr' t : TableHolder} {i : ℕ}, t ∈ s.tracees.set i tr' → t ∈ s.tracees ∨ t = tr' :=
        fun ht => List.mem_or_eq_of_mem_set ht
      cases op with
      | call i call =>
        obtain ⟨hcall, hfrom⟩ := hckept.call hop
        have hall : From s.tables (s.tables.modify tr.table (·.call call)) := by
          refine From.modify fun d hd => ?_
          rw [hc, Option.some.injEq] at hd
          exact hd ▸ hfrom
        refine ⟨fun d hd => ?_, hlength _ hall, hlife _ hall⟩
        obtain hd | ⟨e, he, rfl⟩ := mem_modify hd
        · exact h.tables d hd
        · rw [hc, Option.some.injEq] at he
          exact he ▸ hcall
      | execve i auxvHost =>
        obtain ⟨hk, hf, haddr⟩ := hckept.bindProcPidAuxv tr.pid auxvHost
        have hall := From.set hc hf
        refine ⟨fun d hd => ?_, fun t ht => ?_, fun t ht b hb => ?_⟩
        · obtain hd | rfl := List.mem_or_eq_of_mem_set hd
          · exact h.tables d hd
          · exact hk
        · obtain ht | rfl := hset ht
          · exact hlength _ hall t ht
          · exact hlength _ hall tr htrmem
        · obtain ht | rfl := hset ht
          · exact hlife _ hall t ht b hb
          · obtain hb | hb := List.mem_append.1 hb
            · obtain ⟨addr, hmem, rfl⟩ := List.mem_map.1 hb
              obtain ⟨hlt, hroot⟩ := haddr addr (Option.mem_toList.1 hmem)
              exact ⟨_, List.getElem?_set_self (List.getElem?_eq_some_iff.1 hc).1, hlt, hroot⟩
            · exact hlife _ hall tr htrmem b hb
      | clone i pid newNamespace =>
        cases newNamespace with
        | false =>
          refine ⟨h.tables, fun t ht => ?_, fun t ht b hb => ?_⟩
          · obtain ht | ht := List.mem_append.1 ht
            · exact h.tracees t ht
            · rw [List.mem_singleton.1 ht]
              exact h.tracees tr htrmem
          · obtain ht | ht := List.mem_append.1 ht
            · exact h.life t ht b hb
            · rw [List.mem_singleton.1 ht] at hb
              exact absurd hb List.not_mem_nil
        | true =>
          obtain ⟨hall, hfrom, hlt⟩ := hnew _ hckept.copyNamespace
          refine ⟨hall, fun t ht => ?_, fun t ht b hb => ?_⟩
          · obtain ht | ht := List.mem_append.1 ht
            · exact hlength _ hfrom t ht
            · rw [List.mem_singleton.1 ht]
              exact hlt
          · obtain ht | ht := List.mem_append.1 ht
            · exact hlife _ hfrom t ht b hb
            · rw [List.mem_singleton.1 ht] at hb
              exact absurd hb List.not_mem_nil
      | unshare i =>
        obtain ⟨hall, hfrom, hlt⟩ := hnew _ hckept.copyNamespace
        refine ⟨hall, fun t ht => ?_, fun t ht b hb => ?_⟩
        · obtain ht | rfl := hset ht
          · exact hlength _ hfrom t ht
          · exact hlt
        · obtain ht | rfl := hset ht
          · exact hlife _ hfrom t ht b hb
          · exact hlife _ hfrom tr htrmem b hb
      | chroot i host =>
        obtain ⟨hall, hfrom, hlt⟩ := hnew _ (CachedBindings.ofRoot_kept host)
        refine ⟨hall, fun t ht => ?_, fun t ht b hb => ?_⟩
        · obtain ht | rfl := hset ht
          · exact hlength _ hfrom t ht
          · exact hlt
        · obtain ht | rfl := hset ht
          · exact hlife _ hfrom t ht b hb
          · exact hlife _ hfrom tr htrmem b hb
      | exit i =>
        have hclean := cleanLifeSpan_kept tr.table h.tables tr.lifeContext (h.life tr htrmem)
          fun b hb hne d hd x hx heq =>
            hne (hop tr htr b hb ⟨d, hd, x, hx, heq⟩)
        exact ⟨hclean.1, fun t ht => hlength _ hclean.2 t (List.mem_of_mem_eraseIdx ht),
          fun t ht => hlife _ hclean.2 t (List.mem_of_mem_eraseIdx ht)⟩

theorem start_kept (pid : ℕ) (host : CStr) : (start pid host).Kept := by
  refine ⟨fun c hc => ?_, fun t ht => ?_, fun t ht b hb => ?_⟩
  · rw [List.mem_singleton.1 hc]
    exact CachedBindings.ofRoot_kept host
  · rw [List.mem_singleton.1 ht]
    exact Nat.one_pos
  · rw [List.mem_singleton.1 ht] at hb
    exact absurd hb List.not_mem_nil

/-- **Lookups over whole runs.**  In every run of steps that keep the caches, every table of
a tracee has its root binding at the end of GUEST, `get_root` gives its host path, and every
lookup of a guest path gives the binding with the longest prefix of it. -/
theorem run_answers (pid : ℕ) (host : CStr) (ops : List TablesOp)
    (hops : Run.AllSteps step KeepsCaches (start pid host) ops) :
    ∀ s ∈ Run.states step (start pid host) ops, ∀ tr ∈ s.tracees,
      ∃ c, s.tables[tr.table]? = some c ∧ c.AnswersRoot ∧ c.AnswersLongest := by
  intro s hs tr htr
  have hkept := Run.invariant_states (I := Kept) (fun _ _ hop h => h.step hop) (start_kept pid host)
    hops s hs
  have hget := List.getElem?_eq_getElem (hkept.tracees tr htr)
  have hc := hkept.tables _ (List.mem_of_getElem? hget)
  exact ⟨_, hget, hc.coherent.answers hc.guest hc.root⟩

/-- A tracee execs, its child looks at its auxiliary vector, and it ends. -/
def sharedRun (leave : List TablesOp) : List TablesOp :=
  [.call 0 (.insortBinding4 (str "/x") (str "/a") .none), .execve 0 (some (str "/tmp/f")),
    .clone 0 8 false] ++ leave ++ [.call 1 (.getBinding .guest (auxvPath 7)), .exit 0]

/-- Mounts, one of them over the root, and an `umount`. -/
def mountCalls : List TablesOp :=
  [.call 0 (.mount ⟨str "/y", str "/", .none, false, 0, []⟩), .call 1 .getRoot,
    .call 0 (.umount (str "/a"))]

/-- The run with mounts, where the tracee keeps its table. -/
theorem run_answers_sharedRun :
    ∃ c, ((sharedRun mountCalls).foldl step (start 7 (str "/"))).tables[0]? = some c ∧
      c.AnswersRoot ∧ c.AnswersLongest :=
  run_answers 7 (str "/") (sharedRun mountCalls) (by decide +kernel)
    ((sharedRun mountCalls).foldl step (start 7 (str "/"))) (by decide +kernel) ⟨8, 0, []⟩
    (by decide +kernel)

/-- A tracee that has left the table of its child takes its auxiliary vector off the lists of
that table, and the cache of the table still has it. -/
theorem exists_stale_lookup :
    ¬ ∀ (pid : ℕ) (host : CStr) (ops : List TablesOp), ∀ s ∈ Run.states step (start pid host) ops,
      ∀ tr ∈ s.tracees, ∃ c, s.tables[tr.table]? = some c ∧ c.AnswersRoot ∧ c.AnswersLongest := by
  intro hall
  have hend := hall 7 (str "/") (sharedRun [.unshare 0])
    ((sharedRun [.unshare 0]).foldl step (start 7 (str "/"))) (by decide +kernel) ⟨8, 0, []⟩
    (by decide +kernel)
  obtain ⟨c, hc, -, hlongest⟩ := hend
  obtain ⟨b, hb, hget, -⟩ := hlongest (auxvPath 7) (by decide +kernel)
  have hstale : ∀ c ∈ ((sharedRun [.unshare 0]).foldl step (start 7 (str "/"))).tables[0]?,
      ∀ b ∈ c.bindings.guest, (c.getBinding .guest (auxvPath 7)).1 ≠ some b := by
    decide +kernel
  exact hstale c hc b hb hget

end Tables
end NeoProot
