import NeoProot.Path.Canon
import Mathlib.Data.List.TakeWhile
import Mathlib.Data.List.DropRight

/-!
# The primitives of canonicalization

`join_paths`, `pop_component` and `next_component` move characters in buffers.
On canonical paths they add a component, drop one, and list the components of the
user path.

## Main definitions

* `names` — the components of a path.
* `tokensOf` — what `next_component` returns for them.
-/

namespace NeoProot
open Segments

/-- The components of a path behind the characters `c` of one. -/
def namesFrom (c : CStr) : CStr → List CStr
  | [] => if c = [] then [] else [c]
  | a :: s =>
    if a = '/' then if c = [] then namesFrom [] s else c :: namesFrom [] s
    else namesFrom (c ++ [a]) s

/-- The non-empty components of a path. -/
def names (path : CStr) : List CStr := namesFrom [] path

/-! ### The primitives on canonical paths -/

theorem render_concat_length {cs : List CStr} {c : CStr} (hcs : ∀ d ∈ cs, IsName d)
    (hc : IsName c) : (render cs).length < (render (cs ++ [c])).length := by
  refine render_length_lt (fun d hd => ?_) ⟨List.prefix_append _ _, by simp⟩
  obtain hd | hd := List.mem_append.1 hd
  · exact hcs d hd
  · rw [List.mem_singleton.1 hd]
    exact hc

theorem appendPath_nil_render (cs : List CStr) :
    appendPath [] (render cs) =
      if pathMax ≤ (render cs).length + 1 then .error .enametoolong else .ok (render cs) := by
  have hne : render cs ≠ [] := by
    intro h
    have habs := render_absolute cs
    rw [h] at habs
    simp [IsAbsolute] at habs
  simp [appendPath, hne]

theorem joinPaths_nil (cs : List CStr) :
    joinPaths (render cs) [] =
      if pathMax ≤ (render cs).length + 1 then .error .enametoolong else .ok (render cs) := by
  rw [joinPaths, appendPath_nil_render]
  by_cases hlong : pathMax ≤ (render cs).length + 1
  · rw [if_pos hlong]
  · rw [if_neg hlong]
    simp [appendPath]

/-- `join_paths` adds a component. -/
theorem joinPaths_render {cs : List CStr} {c : CStr} (hcs : ∀ d ∈ cs, IsName d) (hc : IsName c) :
    joinPaths (render cs) c =
      if pathMax ≤ (render (cs ++ [c])).length + 1 then .error .enametoolong
      else .ok (render (cs ++ [c])) := by
  have hlt := render_concat_length hcs hc
  have hhead : c.head? ≠ some '/' := fun h => hc.2 (List.mem_of_mem_head? h)
  have hrender : render (cs ++ [c]) = flat '/' cs ++ '/' :: c := by
    rw [render_of_ne (by simp), flat_append]
    simp
  rw [joinPaths, appendPath_nil_render]
  by_cases hlong : pathMax ≤ (render cs).length + 1
  · rw [if_pos hlong, if_pos (by omega)]
  · rw [if_neg hlong]
    simp only [appendPath, hc.1, if_false]
    by_cases hnil : cs = []
    · subst hnil
      simp only [hrender, render_nil]
      simp [hhead, Nat.add_comm 1]
      rfl
    · have hlast : (render cs).getLast? ≠ some '/' := by
        rw [render_of_ne hnil]
        exact flat_getLast? hcs
      have hne : render cs ≠ [] := by
        intro h
        rw [h] at hlt
        have habs := render_absolute cs
        simp [IsAbsolute, h] at habs
      simp only [ne_eq, hne, hlast, hhead, not_false_eq_true, and_self, if_true]
      rw [hrender, render_of_ne hnil]
      simp [Nat.add_assoc]

theorem backWhile_eq {p : Char → Bool} {path : CStr} {k i : ℕ} (hk : 1 ≤ k) (hki : k ≤ i)
    (hstop : k = 1 ∨ path[k]?.any p = false) (hback : ∀ j, k < j → j ≤ i → path[j]?.any p = true) :
    backWhile p path i = k := by
  induction i with
  | zero => omega
  | succ i ih =>
    cases i with
    | zero =>
      simp only [backWhile]
      omega
    | succ i =>
      by_cases hki' : k = i + 2
      · subst hki'
        obtain hstop | hstop := hstop
        · omega
        · simp [backWhile, hstop]
      · have hcur := hback (i + 2) (by omega) (by omega)
        simp only [backWhile, hcur, if_true]
        exact ih (by omega) fun j hj hji => hback j hj (by omega)

/-- `pop_component` takes the last component away and stays at the root. -/
theorem popComponent_render {cs : List CStr} (hcs : ∀ d ∈ cs, IsName d) :
    popComponent (render cs) = render cs.dropLast := by
  obtain rfl | ⟨ds, c, rfl⟩ := List.eq_nil_or_concat cs
  · rfl
  · have hc := hcs c (by simp)
    have hrender : render (ds ++ [c]) = flat '/' ds ++ '/' :: c := by
      rw [render_of_ne (by simp), flat_append]
      simp
    have hclen : 0 < c.length := List.length_pos_iff.2 hc.1
    rw [List.concat_eq_append, List.dropLast_concat, popComponent,
      if_neg (not_not.2 (render_absolute _))]
    rw [hrender]
    have hlen : (flat '/' ds ++ '/' :: c).length - 1 = (flat '/' ds).length + c.length := by
      simp
    rw [hlen, if_neg (by omega)]
    -- The characters of the last component are no slashes.
    have hat : ∀ j, (flat '/' ds).length < j → j ≤ (flat '/' ds).length + c.length →
        ∃ a ∈ c, (flat '/' ds ++ '/' :: c)[j]? = some a := by
      intro j hj hjl
      have hidx : j - (flat '/' ds).length - 1 < c.length := by omega
      refine ⟨c.get ⟨_, hidx⟩, List.get_mem c ⟨_, hidx⟩, ?_⟩
      rw [List.getElem?_append_right (by omega)]
      obtain ⟨k, hk⟩ : ∃ k, j - (flat '/' ds).length = k + 1 := ⟨_, (Nat.succ_pred (by omega)).symm⟩
      simp only [hk, List.getElem?_cons_succ]
      exact List.getElem?_eq_getElem _
    have hslash : backWhile (· = '/') (flat '/' ds ++ '/' :: c) ((flat '/' ds).length + c.length) =
        (flat '/' ds).length + c.length := by
      refine backWhile_eq (by omega) le_rfl (.inr ?_) fun j hj hji => by omega
      obtain ⟨a, ha, hget⟩ := hat ((flat '/' ds).length + c.length) (by omega) le_rfl
      have hne : a ≠ '/' := fun h => hc.2 (h ▸ ha)
      rw [hget]
      simp [hne]
    rw [hslash]
    by_cases hds : ds = []
    · subst hds
      have hback : backWhile (· ≠ '/') (flat '/' [] ++ '/' :: c) ((flat '/' []).length + c.length) =
          1 := by
        refine backWhile_eq le_rfl (by omega) (.inl rfl) fun j hj hji => ?_
        obtain ⟨a, ha, hget⟩ := hat j (by simp; omega) hji
        have hne : a ≠ '/' := fun h => hc.2 (h ▸ ha)
        rw [hget]
        simp [hne]
      rw [hback]
      rfl
    · have hpos := flat_length_pos (fun d hd => hcs d (by simp [hd])) hds
      have hback : backWhile (· ≠ '/') (flat '/' ds ++ '/' :: c)
          ((flat '/' ds).length + c.length) = (flat '/' ds).length := by
        refine backWhile_eq (by omega) (by omega) (.inr ?_) fun j hj hji => ?_
        · rw [List.getElem?_append_right le_rfl]
          simp
        · obtain ⟨a, ha, hget⟩ := hat j hj hji
          have hne : a ≠ '/' := fun h => hc.2 (h ▸ ha)
          rw [hget]
          simp [hne]
      rw [hback, List.take_left, render_of_ne hds]

/-! ### What `next_component` returns -/

theorem namesFrom_cons_slash (c s : CStr) :
    namesFrom c ('/' :: s) = if c = [] then namesFrom [] s else c :: namesFrom [] s := rfl

theorem namesFrom_append {c s : CStr} (hs : '/' ∉ s) (r : CStr) :
    namesFrom c (s ++ r) = namesFrom (c ++ s) r := by
  induction s generalizing c with
  | nil => simp
  | cons a s ih =>
    have ha : a ≠ '/' := fun h => hs (by simp [h])
    rw [List.cons_append, namesFrom, if_neg ha, ih fun h => hs (by simp [h]), List.append_assoc]
    rfl

theorem names_dropWhile (s : CStr) : names (s.dropWhile (· = '/')) = names s := by
  induction s with
  | nil => rfl
  | cons a s ih =>
    by_cases ha : a = '/'
    · subst ha
      rw [List.dropWhile_cons_of_pos (by simp), ih]
      rfl
    · rw [List.dropWhile_cons_of_neg (by simpa using ha)]

/-- Behind the slashes a path starts with a component, if it goes on at all. -/
theorem dropWhile_slash_eq_nil {s : CStr}
    (h : (s.dropWhile (· = '/')).takeWhile (· ≠ '/') = []) : s.dropWhile (· = '/') = [] := by
  have hhead := List.head?_dropWhile_not (· = '/') s
  cases hs : s.dropWhile (· = '/') with
  | nil => rfl
  | cons a r =>
    rw [hs] at h hhead
    have ha : a ≠ '/' := by simpa using hhead
    rw [List.takeWhile_cons_of_pos (by simpa using ha)] at h
    simp at h

/-- A path splits into its first component and the rest. -/
theorem names_split (s : CStr) :
    names s = if (s.dropWhile (· = '/')).takeWhile (· ≠ '/') = [] then []
      else (s.dropWhile (· = '/')).takeWhile (· ≠ '/') ::
        names ((s.dropWhile (· = '/')).dropWhile (· ≠ '/')) := by
  rw [← names_dropWhile s]
  by_cases hnil : (s.dropWhile (· = '/')).takeWhile (· ≠ '/') = []
  · rw [if_pos hnil, dropWhile_slash_eq_nil hnil]
    rfl
  · rw [if_neg hnil]
    generalize s.dropWhile (· = '/') = start at hnil ⊢
    have hc : '/' ∉ start.takeWhile (· ≠ '/') := fun h => by
      simpa using List.mem_takeWhile_imp h
    conv_lhs => rw [← List.takeWhile_append_dropWhile (p := (· ≠ '/')) (l := start)]
    rw [names, namesFrom_append hc, List.nil_append]
    cases hr : start.dropWhile (· ≠ '/') with
    | nil => simpa [namesFrom, names] using hnil
    | cons a r =>
      have ha : a = '/' := by
        have hhead := List.head?_dropWhile_not (· ≠ '/') start
        rw [hr] at hhead
        simpa using hhead
      subst ha
      rw [namesFrom_cons_slash, if_neg hnil]
      rfl

theorem names_isName (s : CStr) : ∀ c ∈ names s, IsName c := by
  have hkey : ∀ (s c : CStr), '/' ∉ c → ∀ d ∈ namesFrom c s, IsName d := by
    intro s
    induction s with
    | nil =>
      intro c hc d hd
      simp only [namesFrom] at hd
      split at hd
      · simp at hd
      · rw [List.mem_singleton.1 hd]
        exact ⟨‹_›, hc⟩
    | cons a s ih =>
      intro c hc d hd
      rw [namesFrom] at hd
      split at hd
      · split at hd
        · exact ih [] (by simp) d hd
        · obtain rfl | hd := List.mem_cons.1 hd
          · exact ⟨‹_›, hc⟩
          · exact ih [] (by simp) d hd
      · refine ih (c ++ [a]) ?_ d hd
        intro h
        obtain h | h := List.mem_append.1 h
        · exact hc h
        · exact absurd (List.mem_singleton.1 h).symm ‹_›
  exact hkey s [] (by simp)

/-- What `next_component` returns for the given names. -/
def tokensOf (last : Finality) : List CStr → List (Except Errno (CStr × Finality))
  | [] => []
  | c :: cs =>
    if nameMax ≤ c.length then [.error .enametoolong]
    else .ok (c, if cs = [] then last else .notFinal) :: tokensOf last cs

/-- How the last component of a path ends. -/
def lastFinality (path : CStr) : Finality :=
  if path.getLast? = some '/' then .finalSlash else .finalNormal

/-- **The components of a path one after the other.** -/
theorem nextComponents_eq {fuel : ℕ} {cursor : CStr} (h : cursor.length ≤ fuel) :
    nextComponents fuel cursor =
      if names cursor = [] then [.ok ([], .finalNormal)]
      else tokensOf (lastFinality cursor) (names cursor) := by
  induction fuel generalizing cursor with
  | zero =>
    have hnil : cursor = [] := List.length_eq_zero_iff.1 (by omega)
    subst hnil
    rfl
  | succ fuel ih =>
    have hsplit := names_split cursor
    rw [nextComponents.eq_def, nextComponent]
    by_cases hc : (cursor.dropWhile (· = '/')).takeWhile (· ≠ '/') = []
    · rw [if_pos hc] at hsplit
      rw [hsplit, if_pos rfl, dropWhile_slash_eq_nil hc]
      rfl
    · rw [if_neg hc] at hsplit
      have hcs : '/' ∉ (cursor.dropWhile (· = '/')).takeWhile (· ≠ '/') := fun h => by
        simpa using List.mem_takeWhile_imp h
      have hparts : ∃ front, cursor = front ++ ((cursor.dropWhile (· = '/')).takeWhile (· ≠ '/') ++
          (cursor.dropWhile (· = '/')).dropWhile (· ≠ '/')) := by
        rw [List.takeWhile_append_dropWhile]
        exact ⟨_, List.takeWhile_append_dropWhile.symm⟩
      rw [hsplit, if_neg (List.cons_ne_nil _ _)]
      simp only [tokensOf]
      generalize (cursor.dropWhile (· = '/')).takeWhile (· ≠ '/') = c at hc hcs hparts ⊢
      generalize (cursor.dropWhile (· = '/')).dropWhile (· ≠ '/') = after at hparts ⊢
      obtain ⟨front, rfl⟩ := hparts
      by_cases hlong : nameMax ≤ c.length
      · rw [if_pos hlong, if_pos hlong]
      · rw [if_neg hlong, if_neg hlong]
        have hafter : after = after.takeWhile (· = '/') ++ after.dropWhile (· = '/') :=
          List.takeWhile_append_dropWhile.symm
        have hslashes : ∀ a ∈ after.takeWhile (· = '/'), a = '/' := fun a ha => by
          simpa using List.mem_takeWhile_imp ha
        rw [← names_dropWhile after]
        by_cases hnext : after.dropWhile (· = '/') = []
        · -- The final component, with slashes behind it or not.
          have hlast : lastFinality (front ++ (c ++ after)) =
              if after.head? = some '/' then .finalSlash else .finalNormal := by
            rw [hnext, List.append_nil] at hafter
            rw [lastFinality, List.getLast?_append_of_ne_nil _ (by simp [hc])]
            cases hcase : after with
            | nil =>
              obtain ⟨e, a, rfl⟩ := (List.eq_nil_or_concat c).resolve_left hc
              have ha : a ≠ '/' := fun h => hcs (by simp [h])
              simp [ha]
            | cons a r =>
              rw [← hcase, List.getLast?_append_of_ne_nil _ (by simp [hcase]), hcase]
              have hall : ∀ x ∈ a :: r, x = '/' := by
                rw [← hcase]
                intro x hx
                rw [hafter] at hx
                exact hslashes x hx
              have ha := hall a (by simp)
              have hend := hall _ (List.getLast_mem (List.cons_ne_nil a r))
              rw [List.getLast?_eq_getLast_of_ne_nil (List.cons_ne_nil a r), hend, ha]
              simp
          simp only [hnext, if_true]
          rw [hlast]
          by_cases hwant : after.head? = some '/'
          · simp [hwant, names, namesFrom, Finality.isFinal, tokensOf]
          · simp [hwant, names, namesFrom, Finality.isFinal, tokensOf]
        · have hlen : (after.dropWhile (· = '/')).length ≤ fuel := by
            have hle := congrArg List.length hafter
            have hpos := List.length_pos_iff.2 hc
            simp only [List.length_append] at h hle
            omega
          have hne : names (after.dropWhile (· = '/')) ≠ [] := by
            intro hnil
            rw [names_split] at hnil
            split at hnil
            · rename_i hfirst
              have hend := dropWhile_slash_eq_nil hfirst
              rw [List.dropWhile_idempotent] at hend
              exact hnext hend
            · simp at hnil
          have hlast : lastFinality (front ++ (c ++ after)) =
              lastFinality (after.dropWhile (· = '/')) := by
            conv_lhs => rw [lastFinality, hafter]
            rw [← List.append_assoc, ← List.append_assoc,
              List.getLast?_append_of_ne_nil _ hnext, lastFinality]
          rw [if_neg hnext, hlast]
          simp only [if_neg hne, Finality.isFinal]
          rw [ih hlen, if_neg hne]
          simp

end NeoProot
