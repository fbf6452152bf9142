import NeoProot.Path.Dirfd

/-!
# Substitution at the size of a path buffer

`substitute_path_prefix` leaves the buffer alone when the result does not fit, and gives an
error that `substitute_binding` does not look at: the call then counts as a substitution, with
the path that it was given.  `substituteBinding_sound_iff` says that this is all that goes
wrong.

## Main definitions

* `attach`, `Binding.suffix`, `Binding.substituted` — the path with its front replaced.
* `Bindings.Substitutes` — what a substitution has to give.
-/

namespace NeoProot
open Segments

/-- A path continued with the suffix of another: the root itself is no part of what it is
continued to. -/
def attach (front suffix : CStr) : CStr :=
  let path := (if front = ['/'] then [] else front) ++ suffix
  if path = [] then ['/'] else path

theorem ne_nil_of_absolute {path : CStr} (hpath : IsAbsolute path) : path ≠ [] := by
  intro hnil
  simp [hnil, IsAbsolute] at hpath

/-- Different fronts of one suffix make different paths. -/
theorem attach_left_injective {front front' suffix : CStr} (hf : IsAbsolute front)
    (hf' : IsAbsolute front') (h : attach front suffix = attach front' suffix) :
    front = front' := by
  have hlonger : ∀ p : CStr, IsAbsolute p → p ≠ ['/'] →
      attach p suffix = p ++ suffix ∧ attach p suffix ≠ attach ['/'] suffix := by
    intro p hp hroot
    have hne := ne_nil_of_absolute hp
    have heq : attach p suffix = p ++ suffix := by
      simp [attach, hroot, hne]
    refine ⟨heq, fun hsame => ?_⟩
    rw [heq] at hsame
    by_cases hs : suffix = []
    · apply hroot
      simpa [attach, hs] using hsame
    · apply hne
      simpa [attach, hs] using hsame
  by_cases hroot : front = ['/']
  · by_cases hroot' : front' = ['/']
    · rw [hroot, hroot']
    · rw [hroot] at h
      exact absurd h.symm (hlonger front' hf' hroot').2
  · by_cases hroot' : front' = ['/']
    · rw [hroot'] at h
      exact absurd h (hlonger front hf hroot).2
    · rw [(hlonger front hf hroot).1, (hlonger front' hf' hroot').1] at h
      exact List.append_cancel_right h

namespace Binding

/-- The part of a path that the binding does not match. -/
def suffix (b : Binding) (side : Side) (path : CStr) : CStr :=
  if b.ref side = ['/'] then if path = ['/'] then [] else path
  else path.drop (b.ref side).length

/-- The path with the part that the binding matches replaced. -/
def substituted (b : Binding) (side : Side) (path : CStr) : CStr :=
  attach (b.repl side) (b.suffix side path)

variable {b : Binding} {side : Side} {path : CStr}

/-- The path is what the binding matches and the suffix. -/
theorem attach_suffix (hb : IsCanonical (b.ref side)) (hpath : IsAbsolute path)
    (hfront : b.key side <+: comps path) : attach (b.ref side) (b.suffix side path) = path := by
  by_cases hroot : b.ref side = ['/']
  · simp only [attach, suffix, hroot, if_true, List.nil_append]
    by_cases hpathRoot : path = ['/']
    · simp [hpathRoot]
    · have hne : path ≠ [] := by
        intro hnil
        simp [hnil, IsAbsolute] at hpath
      simp [hpathRoot, hne]
  · have hkey : comps (b.ref side) ≠ [] := fun h => hroot ((comps_eq_nil_iff hb).1 h)
    have href : b.ref side = flat '/' (comps (b.ref side)) := by
      rw [← render_of_ne hkey, render_comps hb]
    obtain ⟨ds, -, hflat, hds⟩ := exists_flat_eq hpath
    have hle : comps (b.ref side) <+: ds := by
      obtain rfl | rfl := hds
      · exact hfront
      · exact hfront.trans (List.prefix_append _ _)
    obtain ⟨es, hes⟩ := hle
    have hsplit : path = b.ref side ++ flat '/' es := by
      rw [hflat, ← hes, flat_append, ← href]
    have hne := ne_nil_of_absolute hpath
    have hdrop : path.drop (b.ref side).length = flat '/' es := by
      rw [hsplit, List.drop_left]
    simp only [attach, suffix, hroot, if_false, hdrop, ← hsplit, if_neg hne]

end Binding

namespace Bindings

/-- What a substitution has to give: an error, or the path as it is where the binding found
needs no substitution, or the other path of the binding with the unmatched suffix. -/
def Substitutes (t : Bindings) (side : Side) (path : CStr) : Prop :=
  match t.substituteBinding side path with
  | .error _ => True
  | .ok (false, result) =>
    result = path ∧ ∃ b, t.getBinding side path = some b ∧ b.needSubstitution = false
  | .ok (true, result) =>
    ∃ b suffix, t.getBinding side path = some b ∧ path = attach (b.ref side) suffix ∧
      result = attach (b.repl side) suffix

/-- What the binding found makes of the path fits a path buffer. -/
def FitsBuffer (t : Bindings) (side : Side) (path : CStr) : Prop :=
  ∀ b, t.getBinding side path = some b → b.needSubstitution = true →
    (b.substituted side path).length < pathMax

end Bindings

theorem length_eq_one_iff_root {path : CStr} (hpath : IsAbsolute path) :
    path.length = 1 ↔ path = ['/'] := by
  constructor
  · intro h
    obtain ⟨rest, rfl⟩ := List.head?_eq_some_iff.1 hpath
    rw [List.length_cons] at h
    rw [List.eq_nil_of_length_eq_zero (by omega : rest.length = 0)]
  · intro h
    rw [h]
    rfl

/-- **What `substitute_path_prefix` leaves in the buffer.** -/
theorem substitutePathPrefix_fst {b : Binding} {side : Side} {path : CStr}
    (href : IsAbsolute (b.ref side)) (hrepl : IsAbsolute (b.repl side))
    (hne : b.ref side ≠ b.repl side) (hpath : IsAbsolute path) (hlen : path.length < pathMax) :
    (substitutePathPrefix path (b.ref side).length (b.repl side)).1 =
      if (b.substituted side path).length < pathMax then b.substituted side path else path := by
  simp only [substitutePathPrefix, length_eq_one_iff_root hrepl, length_eq_one_iff_root href,
    length_eq_one_iff_root hpath]
  by_cases hroot : b.repl side = ['/']
  · have hrefRoot : b.ref side ≠ ['/'] := fun h => hne (h.trans hroot.symm)
    have hsub : b.substituted side path =
        if path.length - (b.ref side).length = 0 then ['/'] else path.drop (b.ref side).length := by
      simp only [Binding.substituted, attach, Binding.suffix, hroot, hrefRoot, if_true, if_false,
        List.nil_append, List.drop_eq_nil_iff, Nat.sub_eq_zero_iff_le]
    have hfits : (b.substituted side path).length < pathMax := by
      rw [hsub]
      split
      · exact Nat.lt_of_lt_of_le Nat.one_lt_two (by decide)
      · rw [List.length_drop]
        omega
    rw [if_pos hroot, if_pos hfits, hsub]
  · have hnil : b.repl side ≠ [] := by
      intro h
      simp [h, IsAbsolute] at hrepl
    have hsub : b.substituted side path = b.repl side ++ b.suffix side path := by
      simp [Binding.substituted, attach, hroot, hnil]
    rw [if_neg hroot]
    by_cases hrefRoot : b.ref side = ['/']
    · have hsuffix : b.repl side ++ b.suffix side path =
          if path = ['/'] then b.repl side else b.repl side ++ path := by
        simp only [Binding.suffix, hrefRoot, if_true]
        split <;> simp
      rw [if_pos hrefRoot, hsub, hsuffix]
      by_cases hlong : pathMax ≤
          (if path = ['/'] then b.repl side else b.repl side ++ path).length
      · rw [if_pos hlong, if_neg (Nat.not_lt_of_le hlong)]
      · rw [if_neg hlong, if_pos (Nat.lt_of_not_le hlong)]
    · have hsuffix : b.suffix side path = path.drop (b.ref side).length := by
        rw [Binding.suffix, if_neg hrefRoot]
      rw [if_neg hrefRoot, hsub, hsuffix]
      by_cases hlong : pathMax ≤ (b.repl side ++ path.drop (b.ref side).length).length
      · rw [if_pos hlong, if_neg (Nat.not_lt_of_le hlong)]
      · rw [if_neg hlong, if_pos (Nat.lt_of_not_le hlong)]

namespace Bindings.WellFormed

variable {t : Bindings} {side : Side} {path : CStr} {b : Binding}

/-- The two paths of a binding that is found, and what needs a substitution. -/
theorem found (h : t.WellFormed) (hside : side ≠ .pending) (hb : t.getBinding side path = some b) :
    IsAbsolute path ∧ IsCanonical (b.ref side) ∧ IsCanonical (b.repl side) ∧
      b.key side <+: comps path ∧ (b.needSubstitution = true → b.ref side ≠ b.repl side) := by
  have hpath : IsAbsolute path := by
    by_contra hnot
    simp [getBinding, hnot] at hb
  obtain ⟨hmem, hfront⟩ := h.getBinding_mem hside hpath hb
  have hcan := (h.canonical .guest b hmem).1
  have hneed : b.needSubstitution = true → b.host ≠ b.guest := by
    intro hneed
    simpa [hneed] using (h.substitution b hmem).symm
  cases side with
  | pending => exact absurd rfl hside
  | guest => exact ⟨hpath, hcan.2, hcan.1, hfront, fun hn => (hneed hn).symm⟩
  | host => exact ⟨hpath, hcan.1, hcan.2, hfront, hneed⟩

/-- What `substitute_binding` answers, by the binding that it finds. -/
theorem substituteBinding_eq_substituted (h : t.WellFormed) (hside : side ≠ .pending)
    (hlen : path.length < pathMax) (hb : t.getBinding side path = some b)
    (hneed : b.needSubstitution = true) :
    t.substituteBinding side path =
      .ok (true, if (b.substituted side path).length < pathMax then b.substituted side path
        else path) := by
  obtain ⟨hpath, href, hrepl, -, hne⟩ := h.found hside hb
  have hfst := substitutePathPrefix_fst href.1 hrepl.1 (hne hneed) hpath hlen
  have hpair : (if side = .guest then (b.guest, b.host) else (b.host, b.guest)) =
      (b.ref side, b.repl side) := by
    cases side with
    | pending => exact absurd rfl hside
    | guest => rfl
    | host => rfl
  simp only [Bindings.substituteBinding, hb, hneed, hpair, not_true_eq_false, if_false, hfst]

/-- A path that stays as it was is not what a substitution gives. -/
theorem not_substitutes_of_long (h : t.WellFormed) (hside : side ≠ .pending)
    (hlen : path.length < pathMax) (hb : t.getBinding side path = some b)
    (hneed : b.needSubstitution = true) (hlong : ¬ (b.substituted side path).length < pathMax) :
    ¬ t.Substitutes side path := by
  obtain ⟨-, href, hrepl, -, hne⟩ := h.found hside hb
  rw [Substitutes, h.substituteBinding_eq_substituted hside hlen hb hneed, if_neg hlong]
  intro hkept
  obtain ⟨b', suffix, hb', hold, hnew⟩ := hkept
  rw [hb, Option.some.injEq] at hb'
  subst hb'
  exact hne hneed (attach_left_injective href.1 hrepl.1 (hold.symm.trans hnew))

/-- **When a substitution does what it has to.** -/
theorem substituteBinding_sound_iff (h : t.WellFormed) (hside : side ≠ .pending)
    (hlen : path.length < pathMax) : t.Substitutes side path ↔ t.FitsBuffer side path := by
  cases hb : t.getBinding side path with
  | none => simp [Substitutes, FitsBuffer, Bindings.substituteBinding, hb]
  | some b =>
    obtain ⟨hpath, href, -, hfront, -⟩ := h.found hside hb
    cases hneed : b.needSubstitution with
    | false => simp [Substitutes, FitsBuffer, Bindings.substituteBinding, hb, hneed]
    | true =>
      have hfits : t.FitsBuffer side path ↔ (b.substituted side path).length < pathMax := by
        simp [FitsBuffer, hb, hneed]
      rw [hfits]
      by_cases hlong : (b.substituted side path).length < pathMax
      · rw [Substitutes, h.substituteBinding_eq_substituted hside hlen hb hneed, if_pos hlong]
        refine iff_of_true ⟨b, b.suffix side path, hb, ?_, rfl⟩ hlong
        exact (Binding.attach_suffix href hpath hfront).symm
      · exact iff_of_false (h.not_substitutes_of_long hside hlen hb hneed hlong) hlong

theorem substituteBinding_sound_boundOps :
    let t := (traceeAfter boundOps).fs.bindings
    t.WellFormed ∧ (t.Substitutes .guest (str "/m/x") ↔ t.FitsBuffer .guest (str "/m/x")) :=
  have hwf := (traceeAfter_reachable boundOps (by decide)).wellFormed
  ⟨hwf, substituteBinding_sound_iff hwf (by decide) (by decide)⟩

end Bindings.WellFormed

/-! ### A long root -/

/-- An entry of the root directory with a name of so many characters. -/
def longPath (n : ℕ) (c : Char) : CStr := '/' :: List.replicate n c

theorem length_longPath (n : ℕ) (c : Char) : (longPath n c).length = n + 1 := by
  rw [longPath, List.length_cons, List.length_replicate]

theorem longPath_canonical {n : ℕ} {c : Char} (hn : 0 < n) (hc : c ≠ '/') :
    IsCanonical (longPath n c) := by
  have hname : IsName (List.replicate n c) := by
    refine ⟨fun hnil => ?_, fun hslash => hc (List.eq_of_mem_replicate hslash).symm⟩
    have hlen := congrArg List.length hnil
    rw [List.length_replicate, List.length_nil] at hlen
    omega
  have hrender : longPath n c = render [List.replicate n c] := by
    rw [render_of_ne (List.cons_ne_nil _ _), flat_cons, flat_nil, List.append_nil]
    rfl
  rw [hrender]
  apply render_canonical
  intro d hd
  rwa [List.mem_singleton.1 hd]

theorem longPath_ne_root {n : ℕ} {c : Char} (hn : 0 < n) : longPath n c ≠ ['/'] := by
  intro h
  have hlen := congrArg List.length h
  rw [length_longPath, List.length_singleton] at hlen
  omega

/-- A short guest path below a root with a long host path is answered as if it were
substituted. -/
theorem exists_silent_substitution :
    ¬ ∀ (t : Bindings) (side : Side) (path : CStr), t.Reachable → side ≠ .pending →
      path.length < pathMax → t.Substitutes side path := by
  intro h
  generalize hhost : longPath 4000 'r' = host at *
  generalize hpath : longPath 200 'g' = path
  have hhostLen : host.length = 4001 := by rw [← hhost, length_longPath]
  have hpathLen : path.length = 201 := by rw [← hpath, length_longPath]
  have hhostCan : IsCanonical host := hhost ▸ longPath_canonical (by omega) (by decide)
  have hpathCan : IsCanonical path := hpath ▸ longPath_canonical (by omega) (by decide)
  have hhostRoot : host ≠ ['/'] := hhost ▸ longPath_ne_root (by omega)
  have hpathRoot : path ≠ ['/'] := hpath ▸ longPath_ne_root (by omega)
  let t := Bindings.empty.step (.insortBinding3 host ['/'])
  have hreach : t.Reachable := by
    refine ⟨[.insortBinding3 host ['/']], fun op hop => ?_, List.mem_cons_of_mem _ (by simp [t])⟩
    rw [List.mem_singleton.1 hop]
    exact ⟨hhostCan, by decide⟩
  have hwf := hreach.wellFormed
  have hlen : path.length < pathMax := by
    rw [hpathLen]
    decide
  let root : Binding := (Bindings.empty.newLayer host ['/'] .none).withSubstitution
  have hguest : t.guest = [root] := rfl
  have hfound : t.getBinding .guest path = some root := by
    rw [hwf.getBinding_guest_iff hpathCan]
    simp only [hguest, List.mem_singleton, forall_eq, true_and]
    exact ⟨List.nil_prefix, fun _ => List.prefix_rfl⟩
  have hneed : root.needSubstitution = true := by
    rw [hwf.substitution root (by simp [hguest])]
    exact decide_eq_true hhostRoot
  have hsub : root.substituted .guest path = host ++ path := by
    change attach host (if path = ['/'] then [] else path) = _
    rw [if_neg hpathRoot, attach, if_neg hhostRoot,
      if_neg (List.append_ne_nil_of_left_ne_nil (ne_nil_of_absolute hhostCan.1) _)]
  refine hwf.not_substitutes_of_long (by decide) hlen hfound hneed ?_
    (h t .guest path hreach (by decide) hlen)
  rw [hsub, List.length_append, hhostLen, hpathLen]
  decide

end NeoProot
