import NeoProot.Path.Table

/-!
# The binding map of the stat shim

The tracer writes its GUEST list into the variable `NEOPROOT_STATSHIM_BINDS`, one
binding a line.  The library that is preloaded into the guest reads it back into a
table of fixed size.

## Main definitions

* `exportBinds` — the writer.
* `parseBinds` — the parser.
* `parseBinds_exportBinds_iff` — the bindings that come through.
-/

namespace NeoProot.StatShim

variable {bs : List Binding}

def maxBinds : ℕ := 512

/-- `BIND_ENTRY`, which ends a line. -/
def bindEntry : Char := '\n'

/-- `BIND_KV`, which stands between the two paths. -/
def bindKv : Char := '\t'

/-- `Bind`.  The lengths stored next to the paths are their string lengths. -/
structure Bind where
  guest : CStr
  host : CStr
  deriving DecidableEq, Repr

variable {binds : List Bind}

/-- The two paths of a binding. -/
def Bind.of (b : Binding) : Bind := ⟨b.guest, b.host⟩

/-! ### The writer -/

/-- What the `snprintf` of the writer prints for one binding. -/
def entryOf (b : Binding) : CStr := b.guest ++ bindKv :: (b.host ++ [bindEntry])

/-- The size of the buffer. -/
def exportSize (bindings : List Binding) : ℕ :=
  bindings.foldl (fun total b => total + (b.guest.length + b.host.length + 3)) 1

/-- The loop of the writer: `binds` is what stands in the buffer.  An entry that does
not fit is cut off and ends the loop. -/
def exportLoop (total : ℕ) : CStr → List Binding → CStr
  | binds, [] => binds
  | binds, b :: bs =>
    if total - binds.length ≤ (entryOf b).length then
      binds ++ (entryOf b).take (total - binds.length - 1)
    else exportLoop total (binds ++ entryOf b) bs

/-- The value of `NEOPROOT_STATSHIM_BINDS`.  The GUEST list holds at least the root
binding, so the buffer is never left as it was allocated. -/
def exportBinds (bindings : List Binding) : CStr :=
  exportLoop (exportSize bindings) [] bindings

@[simp] theorem entryOf_length (b : Binding) :
    (entryOf b).length = b.guest.length + b.host.length + 2 := by
  simp only [entryOf, List.length_append, List.length_cons, List.length_nil]
  omega

theorem exportLoop_eq {total : ℕ} {binds : CStr}
    (h : binds.length + (bs.flatMap entryOf).length < total) :
    exportLoop total binds bs = binds ++ bs.flatMap entryOf := by
  induction bs generalizing binds with
  | nil => simp [exportLoop]
  | cons b bs ih =>
    rw [List.flatMap_cons, List.length_append] at h
    rw [exportLoop, if_neg (by omega), ih (by rw [List.length_append]; omega), List.flatMap_cons,
      List.append_assoc]

theorem flatMap_entryOf_length_lt (bs : List Binding) :
    (bs.flatMap entryOf).length < exportSize bs := by
  have hfold : ∀ (bs : List Binding) (n : ℕ), n + (bs.flatMap entryOf).length ≤
      bs.foldl (fun total b => total + (b.guest.length + b.host.length + 3)) n := by
    intro bs
    induction bs with
    | nil => simp
    | cons b bs ih =>
      intro n
      have hrest := ih (n + (b.guest.length + b.host.length + 3))
      rw [List.flatMap_cons, List.length_append, entryOf_length, List.foldl_cons]
      omega
  have := hfold bs 1
  rw [exportSize]
  omega

/-- The buffer is large enough for every entry. -/
theorem exportBinds_eq (bs : List Binding) : exportBinds bs = bs.flatMap entryOf := by
  have hlen := flatMap_entryOf_length_lt bs
  apply exportLoop_eq
  rw [List.length_nil]
  omega

/-! ### The parser -/

/-- What the parser makes of one line. -/
def parseEntry (line : CStr) : Option Bind :=
  let guest := line.takeWhile (· ≠ bindKv)
  if guest.length = line.length then none
  else
    let host := line.drop (guest.length + 1)
    if 0 < guest.length ∧ 0 < host.length ∧ guest.length < pathMax ∧ host.length < pathMax then
      some ⟨guest, host⟩
    else none

/-- The loop of `parse_binds`, `binds` being the entries it has stored.  Every round
takes at least one character of the string. -/
def parseLoop : ℕ → List Bind → CStr → List Bind
  | 0, binds, _ => binds
  | fuel + 1, binds, p =>
    if p = [] ∨ maxBinds ≤ binds.length then binds
    else
      let line := p.takeWhile (· ≠ bindEntry)
      let binds := binds ++ (parseEntry line).toList
      match p.drop line.length with
      | [] => binds
      | _ :: p => parseLoop fuel binds p

/-- `parse_binds`. -/
def parseBinds (s : CStr) : List Bind := parseLoop s.length [] s

/-- A binding whose paths leave the separators alone. -/
def Separated (b : Binding) : Prop := bindKv ∉ b.guest ∧ bindEntry ∉ b.guest ∧ bindEntry ∉ b.host

instance : DecidablePred Separated := fun _ => inferInstanceAs (Decidable (_ ∧ _))

/-- The paths of a binding, as `Path` buffers hold them. -/
def Stored (b : Binding) : Prop :=
  b.guest ≠ [] ∧ b.host ≠ [] ∧ b.guest.length < pathMax ∧ b.host.length < pathMax

instance : DecidablePred Stored := fun _ => inferInstanceAs (Decidable (_ ∧ _))

theorem takeWhile_append_cons {a : Char} {l : CStr} (h : a ∉ l) (r : CStr) :
    (l ++ a :: r).takeWhile (· ≠ a) = l := by
  rw [List.takeWhile_append_of_pos, List.takeWhile_cons_of_neg (by simp), List.append_nil]
  intro c hc
  have hne : c ≠ a := fun heq => h (heq ▸ hc)
  simpa using hne

theorem not_mem_takeWhile (a : Char) (l : CStr) : a ∉ l.takeWhile (· ≠ a) := by
  intro hmem
  simpa using List.all_eq_true.1 (List.all_takeWhile (p := fun c => decide (c ≠ a)) (l := l)) a hmem

theorem parseEntry_line {b : Binding} (h : Separated b) (hs : Stored b) :
    parseEntry (b.guest ++ bindKv :: b.host) = some (.of b) := by
  obtain ⟨hguest, hhost, hglen, hhlen⟩ := hs
  have hg : 0 < b.guest.length := List.length_pos_iff.2 hguest
  have hh : 0 < b.host.length := List.length_pos_iff.2 hhost
  have hdrop : (b.guest ++ bindKv :: b.host).drop (b.guest.length + 1) = b.host := by
    rw [← List.drop_drop, List.drop_left]
    rfl
  simp only [parseEntry, takeWhile_append_cons h.1, hdrop]
  rw [if_neg (by simp), if_pos ⟨hg, hh, hglen, hhlen⟩]
  rfl

/-- One line of the map is read back, as long as the table has room. -/
theorem parseLoop_entryOf {b : Binding} (h : Separated b) (hs : Stored b)
    (hroom : binds.length < maxBinds) (fuel : ℕ) (rest : CStr) :
    parseLoop (fuel + 1) binds (entryOf b ++ rest) = parseLoop fuel (binds ++ [.of b]) rest := by
  have hsplit : entryOf b ++ rest = (b.guest ++ bindKv :: b.host) ++ bindEntry :: rest := by
    simp [entryOf]
  have hline : bindEntry ∉ b.guest ++ bindKv :: b.host := by
    simp only [List.mem_append, List.mem_cons, not_or]
    exact ⟨h.2.1, by decide, h.2.2⟩
  rw [hsplit, parseLoop]
  simp only [takeWhile_append_cons hline, parseEntry_line h hs, List.drop_left,
    Option.toList_some]
  rw [if_neg]
  simp
  omega

/-- The parser stores the first `maxBinds` bindings. -/
theorem parseLoop_export (h : ∀ b ∈ bs, Separated b ∧ Stored b) {fuel : ℕ}
    (hfuel : (bs.flatMap entryOf).length ≤ fuel) :
    parseLoop fuel binds (bs.flatMap entryOf) =
      binds ++ (bs.take (maxBinds - binds.length)).map .of := by
  induction bs generalizing binds fuel with
  | nil => cases fuel <;> simp [parseLoop]
  | cons b bs ih =>
    rw [List.flatMap_cons, List.length_append, entryOf_length] at hfuel
    obtain ⟨fuel, rfl⟩ : ∃ n, fuel = n + 1 := ⟨fuel - 1, by omega⟩
    by_cases hroom : binds.length < maxBinds
    · obtain ⟨k, hk⟩ : ∃ k, maxBinds - binds.length = k + 1 :=
        ⟨maxBinds - binds.length - 1, by omega⟩
      have hrest : maxBinds - (binds ++ [Bind.of b]).length = k := by
        rw [List.length_append, List.length_singleton]
        omega
      rw [List.flatMap_cons, parseLoop_entryOf (h b (by simp)).1 (h b (by simp)).2 hroom,
        ih (fun c hc => h c (by simp [hc])) (by omega), hrest, hk, List.take_succ_cons,
        List.map_cons, List.append_assoc, List.singleton_append]
    · have hfull : maxBinds - binds.length = 0 := by omega
      rw [parseLoop, if_pos (Or.inr (by omega)), hfull]
      simp

theorem separated_of_parseEntry {line : CStr} {x : Bind} (h : parseEntry line = some x)
    (hline : bindEntry ∉ line) : bindKv ∉ x.guest ∧ bindEntry ∉ x.guest ∧ bindEntry ∉ x.host := by
  simp only [parseEntry] at h
  split at h
  · simp at h
  · split at h
    · rw [Option.some.injEq] at h
      subst h
      refine ⟨not_mem_takeWhile _ _, fun hc => hline ?_, fun hc => hline ?_⟩
      · exact (List.takeWhile_prefix _).subset hc
      · exact List.mem_of_mem_drop hc
    · simp at h

/-- What the parser stores came from a line and from in front of a tab. -/
theorem separated_of_mem_parseLoop {fuel : ℕ} {p : CStr} {x : Bind}
    (hx : x ∈ parseLoop fuel binds p) :
    x ∈ binds ∨ (bindKv ∉ x.guest ∧ bindEntry ∉ x.guest ∧ bindEntry ∉ x.host) := by
  induction fuel generalizing binds p with
  | zero => exact .inl hx
  | succ fuel ih =>
    rw [parseLoop] at hx
    split at hx
    · exact .inl hx
    · simp only at hx
      have hnow : x ∈ binds ++ (parseEntry (p.takeWhile (· ≠ bindEntry))).toList →
          x ∈ binds ∨ (bindKv ∉ x.guest ∧ bindEntry ∉ x.guest ∧ bindEntry ∉ x.host) := by
        intro hmem
        rw [List.mem_append, Option.mem_toList] at hmem
        exact hmem.imp id fun hx => separated_of_parseEntry hx (not_mem_takeWhile _ _)
      split at hx
      · exact hnow hx
      · exact (ih hx).elim hnow .inr

/-- **The map comes through exactly when no path contains a separator that ends it, and
the table of the shim has room for every binding.** -/
theorem parseBinds_exportBinds_iff (hstored : ∀ b ∈ bs, Stored b)
    (hunique : (bs.map fun b => b.guest).Nodup) :
    (∀ x, x ∈ parseBinds (exportBinds bs) ↔ x ∈ bs.map .of) ↔
      (∀ b ∈ bs, Separated b) ∧ bs.length ≤ maxBinds := by
  rw [exportBinds_eq, parseBinds]
  constructor
  · intro heq
    have hsep : ∀ b ∈ bs, Separated b := by
      intro b hb
      exact (separated_of_mem_parseLoop ((heq (.of b)).2 (List.mem_map_of_mem hb))).resolve_left
        (by simp)
    refine ⟨hsep, ?_⟩
    by_contra hlong
    -- The binding behind the last one that is stored has a guest path of its own.
    have hlast : maxBinds < bs.length := by omega
    have hmem := (heq (.of bs[maxBinds])).2 (List.mem_map_of_mem (List.getElem_mem hlast))
    rw [parseLoop_export (fun b hb => ⟨hsep b hb, hstored b hb⟩) le_rfl, List.nil_append,
      List.mem_map] at hmem
    obtain ⟨b, hb, hbeq⟩ := hmem
    obtain ⟨i, hi, rfl⟩ := List.mem_iff_getElem.1 hb
    rw [List.length_take, List.length_nil] at hi
    rw [List.getElem_take] at hbeq
    have hlen : (bs.map fun b => b.guest).length = bs.length := List.length_map _
    have hguest : (bs.map fun b => b.guest).get ⟨i, by omega⟩ =
        (bs.map fun b => b.guest).get ⟨maxBinds, by omega⟩ := by
      simp only [List.get_eq_getElem, List.getElem_map]
      exact congrArg Bind.guest hbeq
    have hindex := congrArg Fin.val (hunique.injective_get hguest)
    simp only at hindex
    omega
  · intro h x
    obtain ⟨hsep, hlen⟩ := h
    rw [parseLoop_export (fun b hb => ⟨hsep b hb, hstored b hb⟩) le_rfl, List.nil_append,
      List.length_nil, List.take_of_length_le (by omega)]

end NeoProot.StatShim
