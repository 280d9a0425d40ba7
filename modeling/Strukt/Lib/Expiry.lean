import Mathlib

/-!
# Logs whose entries expire

An `Expiry` says which earlier times still count at a later one. A log of times is kept in order,
and what has expired is dropped from its front before a new time is added (`recent_append`).

* **Judged logs** (`Judged`): each entry carries a verdict on the number of entries before it that
  still count.
* **Budgets** (`Judged.budget`): where no verdict admits more than `k` entries, at most `k` are
  admitted in any window.
* **Blocks** (`Judged.block`): while nothing expires, the verdicts follow one another.
-/

namespace Strukt

/-- `fresh now t`: what happened at `t` still counts at `now`. -/
structure Expiry (τ : Type) [LinearOrder τ] where
  fresh : τ → τ → Bool
  self : ∀ t, fresh t t
  later : ∀ {now t t'}, t ≤ t' → fresh now t → fresh now t'
  earlier : ∀ {now now' t}, now ≤ now' → fresh now' t → fresh now t

namespace Expiry

variable {τ β : Type} [LinearOrder τ] (x : Expiry τ) {now now' t : τ} {l : List τ}

/-- What still counts. -/
def recent (now : τ) (l : List τ) : List τ := l.filter (x.fresh now)

/-- In a log that is in order, what has expired is at the front. -/
theorem dropWhile_eq_recent (h : l.Pairwise (· ≤ ·)) :
    l.dropWhile (fun t => !x.fresh now t) = x.recent now l := by
  induction l with
  | nil => rfl
  | cons t l ih =>
    rw [List.pairwise_cons] at h
    unfold recent
    by_cases ht : x.fresh now t
    · have hall : ∀ t' ∈ l, x.fresh now t' := fun t' ht' => x.later (h.1 t' ht') ht
      rw [List.dropWhile_cons_of_neg (by simp [ht]), List.filter_cons_of_pos ht,
        List.filter_eq_self.mpr hall]
    · rw [List.dropWhile_cons_of_pos (by simp [ht]), List.filter_cons_of_neg ht, ih h.2]
      rfl

/-- What was dropped before would be dropped now. -/
theorem recent_recent (h : now ≤ now') : x.recent now' (x.recent now l) = x.recent now' l := by
  unfold recent
  rw [List.filter_filter]
  refine List.filter_congr fun t _ => ?_
  by_cases ht : x.fresh now' t
  · simp [ht, x.earlier h ht]
  · simp [ht]

/-- Dropping what expired and adding the time of now gives what counts now. -/
theorem recent_append (h : l.Pairwise (· ≤ ·)) (hle : now ≤ now') :
    (x.recent now l).dropWhile (fun t => !x.fresh now' t) ++ [now'] =
      x.recent now' (l ++ [now']) := by
  have hsorted : (x.recent now l).Pairwise (· ≤ ·) := h.filter _
  rw [x.dropWhile_eq_recent hsorted, x.recent_recent hle]
  simp [recent, x.self]

/-! ## Judged logs -/

/-- Each entry carries the verdict on the number of entries before it that still count. -/
def Judged (verdict : Nat → β) (log : List (τ × β)) : Prop :=
  ∀ before e after, log = before ++ e :: after →
    e.2 = verdict (x.recent e.1 (before.map (·.1))).length

variable {x} {verdict : Nat → β} {log : List (τ × β)} {e : τ × β}

theorem judged_nil : x.Judged verdict [] := by
  intro before e after h
  cases before <;> cases h

theorem Judged.append (h : x.Judged verdict log)
    (he : e.2 = verdict (x.recent e.1 (log.map (·.1))).length) :
    x.Judged verdict (log ++ [e]) := by
  intro before e' after heq
  obtain ⟨rfl, rfl⟩ | ⟨after', rfl⟩ : after = [] ∧ e' = e ∨ ∃ after', after = after' ++ [e] := by
    obtain rfl | ⟨after', a, rfl⟩ := List.eq_nil_or_concat after
    · have hlast := congrArg List.getLast? heq
      simp only [List.getLast?_append, List.getLast?_singleton, Option.some_or,
        Option.some.injEq] at hlast
      exact .inl ⟨rfl, hlast.symm⟩
    · have hlast := congrArg List.getLast? heq
      simp only [List.concat_eq_append, List.getLast?_append, Option.some_or, List.getLast?_cons,
        Option.some.injEq] at hlast
      refine .inr ⟨after', ?_⟩
      rw [List.concat_eq_append]
      simp_all
  · have hbefore : log = before := (List.append_inj_left' heq rfl)
    rw [← hbefore]
    exact he
  · rw [← List.cons_append, ← List.append_assoc] at heq
    exact h before e' after' (List.append_inj_left' heq rfl)

theorem Judged.last (h : x.Judged verdict (log ++ [e])) :
    e.2 = verdict (x.recent e.1 (log.map (·.1))).length :=
  h log e [] rfl

theorem Judged.init (h : x.Judged verdict (log ++ [e])) : x.Judged verdict log := by
  intro before e' after heq
  exact h before e' (after ++ [e]) (by rw [heq, List.append_assoc, List.cons_append])

/-- The entries of the window that begins at `a`. -/
def inWindow (x : Expiry τ) (a : τ) (log : List (τ × β)) : List (τ × β) :=
  log.filter fun e => decide (a ≤ e.1) && x.fresh e.1 a

/-- All that is in the window counts at a later time in the window. -/
theorem length_inWindow_le {a : τ} (log : List (τ × β)) (h : x.fresh now a) :
    (x.inWindow a log).length ≤ (x.recent now (log.map (·.1))).length := by
  rw [recent, List.filter_map, List.length_map]
  refine (List.monotone_filter_right log fun e he => ?_).length_le
  rw [Bool.and_eq_true, decide_eq_true_eq] at he
  exact x.later he.1 h

/-- Where verdicts on `k` entries or more do not admit, a window has at most `k` admitted ones. -/
theorem Judged.budget {admits : β → Bool} {k : Nat} (h : x.Judged verdict log)
    (hk : ∀ n, admits (verdict n) → n < k) (a : τ) :
    ((x.inWindow a log).filter fun e => admits e.2).length ≤ k := by
  induction log using List.reverseRecOn with
  | nil => exact Nat.zero_le k
  | append_singleton log e ih =>
    have hlog := ih h.init
    have hsplit : ((x.inWindow a (log ++ [e])).filter fun e => admits e.2).length =
        ((x.inWindow a log).filter fun e => admits e.2).length +
          ((x.inWindow a [e]).filter fun e => admits e.2).length := by
      rw [inWindow, List.filter_append, List.filter_append, List.length_append]
      rfl
    by_cases hnew : (x.inWindow a [e]).filter (fun e => admits e.2) = []
    · rw [hsplit, hnew, List.length_nil, Nat.add_zero]
      exact hlog
    · obtain ⟨e', he'⟩ := List.exists_mem_of_ne_nil _ hnew
      obtain ⟨hwindow, hadmits⟩ := List.mem_filter.mp he'
      obtain ⟨hmem, hin⟩ := List.mem_filter.mp hwindow
      obtain rfl := List.mem_singleton.mp hmem
      -- The entries of the window before this one are among those that it was judged by.
      have hlt := hk _ (h.last ▸ hadmits)
      have hle := length_inWindow_le log (Bool.and_eq_true_iff.mp hin).2
      have hsub := List.length_filter_le (fun e => admits e.2) (x.inWindow a log)
      have hone : ((x.inWindow a [e']).filter fun e => admits e.2).length ≤ 1 :=
        (List.length_filter_le _ _).trans (List.length_filter_le _ _)
      omega

/-- While nothing expires, each verdict is on one entry more. -/
theorem Judged.block {before block after : List (τ × β)} (first last : τ)
    (h : x.Judged verdict (before ++ block ++ after))
    (hfirst : ∀ e ∈ block, first ≤ e.1) (hlast : ∀ e ∈ block, e.1 ≤ last)
    (hkept : ∀ e ∈ before, x.fresh first e.1 → x.fresh last e.1) (hfresh : x.fresh last first) :
    block.map (·.2) = (List.range block.length).map fun n =>
      verdict ((x.recent first (before.map (·.1))).length + n) := by
  have hsame (t : τ) (hft : first ≤ t) (htl : t ≤ last) :
      x.recent t (before.map (·.1)) = x.recent first (before.map (·.1)) := by
    refine List.filter_congr fun t' ht' => ?_
    obtain ⟨e, he, rfl⟩ := List.mem_map.mp ht'
    rw [Bool.eq_iff_iff]
    exact ⟨x.earlier hft, fun hf => x.earlier htl (hkept e he hf)⟩
  refine List.ext_getElem (by simp) fun n hn _ => ?_
  rw [List.length_map] at hn
  simp only [List.getElem_map, List.getElem_range]
  have hmem : block[n] ∈ block := List.getElem_mem hn
  have hsplit : before ++ block ++ after =
      (before ++ block.take n) ++ block[n] :: (block.drop (n + 1) ++ after) := by
    rw [List.append_assoc, List.append_assoc, ← List.cons_append, List.cons_getElem_drop_succ,
      ← List.append_assoc (block.take n), List.take_append_drop]
  rw [h _ _ _ hsplit, List.map_append, recent, List.filter_append, List.length_append]
  have htaken : ((block.take n).map (·.1)).filter (x.fresh block[n].1) =
      (block.take n).map (·.1) := by
    refine List.filter_eq_self.mpr fun t ht => ?_
    obtain ⟨e, he, rfl⟩ := List.mem_map.mp ht
    exact x.later (hfirst e (List.mem_of_mem_take he)) (x.earlier (hlast _ hmem) hfresh)
  have hrecent := hsame _ (hfirst _ hmem) (hlast _ hmem)
  unfold recent at hrecent ⊢
  rw [htaken, hrecent, List.length_map, List.length_take, Nat.min_eq_left hn.le]

end Expiry
end Strukt
