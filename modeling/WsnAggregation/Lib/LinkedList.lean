import Mathlib.Data.List.Dedup
import Mathlib.Logic.Function.Basic

/-!
# Linked lists in memory

Nodes that each hold a pointer to the next one, and the loops that follow the pointers. A pointer
that starts a list is its end or leads to a node (`Chained`). Nothing keeps pointers from leading
round in a circle, so the loops take the number of rounds they may make, and give nothing when
that is not enough; where there is a list, the rounds of its length are.
-/

namespace WsnAggregation.Lib

variable {α β : Type}

/-- The list of nodes that starts at a pointer. -/
def Chained (next : α → Option α) : Option α → List α → Prop
  | p, [] => p = none
  | p, a :: l => p = some a ∧ Chained next (next a) l

/-- `for(t = p; t != NULL && !stop(t); t = t->next);` -/
def searchLoop (next : α → Option α) (stop : α → Bool) : ℕ → Option α → Option (Option α)
  | _, none => some none
  | 0, some _ => none
  | rounds + 1, some t => if stop t then some (some t) else searchLoop next stop rounds (next t)

/-- `for(t = p; t != NULL; t = t->next) b = f(b, t);` -/
def foldLoop (next : α → Option α) (f : β → α → β) : ℕ → Option α → β → Option β
  | _, none, b => some b
  | 0, some _, _ => none
  | rounds + 1, some t, b => foldLoop next f rounds (next t) (f b t)

/-- `while(t->next != NULL) if(drop(t->next)) t->next = t->next->next; else t = t->next;` -/
def removeLoop [DecidableEq α] (drop : α → Bool) : ℕ → (α → Option α) → α → Option (α → Option α)
  | 0, next, t =>
    match next t with
    | none => some next
    | some _ => none
  | rounds + 1, next, t =>
    match next t with
    | none => some next
    | some u =>
      if drop u then removeLoop drop rounds (Function.update next t (next u)) t
      else removeLoop drop rounds next u

/-! ### More rounds -/

section Rounds

variable {next : α → Option α} {n n' : ℕ}

theorem searchLoop_mono {stop : α → Bool} {p : Option α} {r : Option α} (hn : n ≤ n')
    (h : searchLoop next stop n p = some r) : searchLoop next stop n' p = some r := by
  induction n generalizing p n' with
  | zero =>
    cases p with
    | none => cases n' <;> exact h
    | some t => cases h
  | succ n ih =>
    obtain ⟨n', rfl⟩ := Nat.exists_eq_succ_of_ne_zero (Nat.ne_zero_of_lt hn)
    cases p with
    | none => exact h
    | some t =>
      rw [searchLoop] at h ⊢
      split at h
      · next hstop => rw [if_pos hstop, h]
      · next hstop =>
        rw [if_neg hstop]
        exact ih (Nat.le_of_succ_le_succ hn) h

theorem foldLoop_mono {f : β → α → β} {p : Option α} {b r : β} (hn : n ≤ n')
    (h : foldLoop next f n p b = some r) : foldLoop next f n' p b = some r := by
  induction n generalizing p b n' with
  | zero =>
    cases p with
    | none => cases n' <;> exact h
    | some t => cases h
  | succ n ih =>
    obtain ⟨n', rfl⟩ := Nat.exists_eq_succ_of_ne_zero (Nat.ne_zero_of_lt hn)
    cases p with
    | none => exact h
    | some t =>
      rw [foldLoop] at h ⊢
      exact ih (Nat.le_of_succ_le_succ hn) h

theorem removeLoop_mono [DecidableEq α] {drop : α → Bool} {t : α} {r : α → Option α} (hn : n ≤ n')
    (h : removeLoop drop n next t = some r) : removeLoop drop n' next t = some r := by
  induction n generalizing next t n' with
  | zero =>
    unfold removeLoop at h
    cases hnext : next t with
    | none =>
      rw [hnext] at h
      cases n' <;> simp only [removeLoop, hnext] <;> exact h
    | some u =>
      rw [hnext] at h
      cases h
  | succ n ih =>
    obtain ⟨n', rfl⟩ := Nat.exists_eq_succ_of_ne_zero (Nat.ne_zero_of_lt hn)
    have hn := Nat.le_of_succ_le_succ hn
    unfold removeLoop at h ⊢
    cases hnext : next t with
    | none =>
      rw [hnext] at h
      exact h
    | some u =>
      simp only [hnext] at h ⊢
      split at h
      · next hdrop =>
        rw [if_pos hdrop]
        exact ih hn h
      · next hdrop =>
        rw [if_neg hdrop]
        exact ih hn h

end Rounds

namespace Chained

variable {next next' : α → Option α} {p : Option α} {l : List α} {a : α}

@[simp] theorem nil_iff : Chained next p [] ↔ p = none := Iff.rfl

@[simp] theorem cons_iff : Chained next p (a :: l) ↔ p = some a ∧ Chained next (next a) l := Iff.rfl

theorem head (h : Chained next p l) : p = l.head? := by
  cases l with
  | nil => exact h
  | cons a l => exact h.1

/-- A pointer starts one list only. -/
theorem unique {l' : List α} (h : Chained next p l) (h' : Chained next p l') : l = l' := by
  induction l generalizing p l' with
  | nil =>
    have hhead := h'.head
    rw [nil_iff.1 h] at hhead
    exact (List.head?_eq_none_iff.1 hhead.symm).symm
  | cons a l ih =>
    obtain ⟨rfl, h⟩ := h
    cases l' with
    | nil => cases h'
    | cons b l' =>
      obtain ⟨hb, h'⟩ := h'
      obtain rfl := Option.some.inj hb
      rw [ih h h']

theorem drop {l₁ l₂ : List α} (h : Chained next p (l₁ ++ l₂)) :
    ∃ q, Chained next q l₂ ∧ q = l₂.head? := by
  induction l₁ generalizing p with
  | nil => exact ⟨p, h, Chained.head h⟩
  | cons b l₁ ih => exact ih h.2

theorem tail {l₁ l₂ : List α} (h : Chained next p (l₁ ++ a :: l₂)) : Chained next (next a) l₂ := by
  obtain ⟨q, hq, -⟩ := h.drop
  exact hq.2

/-- The list does not come back to a node. -/
theorem nodup (h : Chained next p l) : l.Nodup := by
  induction l generalizing p with
  | nil => exact List.nodup_nil
  | cons a l ih =>
    refine List.nodup_cons.2 ⟨fun ha => ?_, ih h.2⟩
    -- The list after the second time is the list after the first.
    obtain ⟨l₁, l₂, rfl⟩ := List.append_of_mem ha
    have hagain : Chained next p ((a :: l₁) ++ a :: l₂) := h
    have hlen := congrArg List.length (unique h.2 hagain.tail)
    simp only [List.length_append, List.length_cons] at hlen
    omega

theorem next_mem (h : Chained next p l) (ha : a ∈ l) {b : α} (hb : next a = some b) : b ∈ l := by
  obtain ⟨l₁, l₂, rfl⟩ := List.append_of_mem ha
  have hhead := h.tail.head
  rw [hb] at hhead
  exact List.mem_append_right _ (List.mem_cons_of_mem _ (List.mem_of_mem_head? hhead.symm))

/-- The only node that points to `a` is the one before it. -/
theorem find?_before [DecidableEq α] {l₁ l₂ : List α} {u : α}
    (h : Chained next p (l₁ ++ u :: a :: l₂)) :
    (l₁ ++ u :: a :: l₂).find? (fun b => next b = some a) = some u := by
  rw [List.find?_eq_some_iff_append]
  refine ⟨decide_eq_true h.tail.1, l₁, a :: l₂, rfl, fun b hb => ?_⟩
  obtain ⟨l₃, l₄, rfl⟩ := List.append_of_mem hb
  rw [List.append_assoc, List.cons_append] at h
  have hnodup := (List.nodup_cons.1 (List.nodup_append.1 h.nodup).2.1).2
  rw [Bool.not_eq_true', decide_eq_false_iff_not, h.tail.head]
  intro hhead
  cases l₄ with
  | nil =>
    obtain rfl := Option.some.inj hhead
    exact (List.nodup_cons.1 hnodup).1 List.mem_cons_self
  | cons c l₄ =>
    obtain rfl := Option.some.inj hhead
    exact (List.nodup_cons.1 hnodup).1
      (List.mem_append_right _ (List.mem_cons_of_mem _ List.mem_cons_self))

theorem congr (h : Chained next p l) (heq : ∀ b ∈ l, next' b = next b) : Chained next' p l := by
  induction l generalizing p with
  | nil => exact h
  | cons b l ih =>
    refine ⟨h.1, ?_⟩
    rw [heq b List.mem_cons_self]
    exact ih h.2 fun c hc => heq c (List.mem_cons_of_mem _ hc)

section Writes

variable [DecidableEq α]

theorem update (h : Chained next p l) (ha : a ∉ l) (q : Option α) :
    Chained (Function.update next a q) p l :=
  h.congr fun b hb => by
    rw [Function.update_of_ne]
    rintro rfl
    exact ha hb

theorem push (h : Chained next p l) (ha : a ∉ l) :
    Chained (Function.update next a p) (some a) (a :: l) := by
  refine ⟨rfl, ?_⟩
  rw [Function.update_self]
  exact h.update ha p

/-- A node is taken out after another. -/
theorem unlink {l₁ l₂ : List α} {u : α} (h : Chained next p (l₁ ++ u :: a :: l₂)) :
    Chained (Function.update next u (next a)) p (l₁ ++ u :: l₂) := by
  induction l₁ generalizing p with
  | nil =>
    have hnot : u ∉ l₂ := fun hu => (List.nodup_cons.1 h.nodup).1 (List.mem_cons_of_mem _ hu)
    refine ⟨h.1, ?_⟩
    rw [Function.update_self]
    exact h.2.2.update hnot _
  | cons b l₁ ih =>
    have hb : b ≠ u := by
      rintro rfl
      exact (List.nodup_cons.1 h.nodup).1 (List.mem_append_right _ List.mem_cons_self)
    refine ⟨h.1, ?_⟩
    rw [Function.update_of_ne hb]
    exact ih h.2

end Writes

/-! ### Loops -/

theorem searchLoop_eq (h : Chained next p l) (stop : α → Bool) {rounds : ℕ}
    (hr : l.length ≤ rounds) : searchLoop next stop rounds p = some (l.find? stop) := by
  induction l generalizing p rounds with
  | nil =>
    rw [nil_iff.1 h, searchLoop]
    rfl
  | cons b l ih =>
    cases rounds with
    | zero => cases hr
    | succ rounds =>
      rw [h.1, searchLoop, List.find?_cons]
      cases hs : stop b with
      | true => rfl
      | false => exact ih h.2 (Nat.le_of_succ_le_succ hr)

theorem foldLoop_eq (h : Chained next p l) (f : β → α → β) (b : β) {rounds : ℕ}
    (hr : l.length ≤ rounds) : foldLoop next f rounds p b = some (l.foldl f b) := by
  induction l generalizing p rounds b with
  | nil =>
    rw [nil_iff.1 h, foldLoop]
    rfl
  | cons c l ih =>
    cases rounds with
    | zero => cases hr
    | succ rounds =>
      rw [h.1, foldLoop, List.foldl_cons]
      exact ih h.2 _ (Nat.le_of_succ_le_succ hr)

/-- The loop takes out the nodes after `t` that are to be dropped, and touches no others. -/
theorem removeLoop_eq [DecidableEq α] {t : α} (h : Chained next (next t) l) (ht : t ∉ l)
    (drop : α → Bool) {rounds : ℕ} (hr : l.length ≤ rounds) :
    ∃ next', removeLoop drop rounds next t = some next' ∧
      Chained next' (next' t) (l.filter fun a => !drop a) ∧
      ∀ b, b ≠ t → b ∉ l → next' b = next b := by
  induction l generalizing next t rounds with
  | nil =>
    refine ⟨next, ?_, h, fun _ _ _ => rfl⟩
    cases rounds <;> simp only [removeLoop, nil_iff.1 h]
  | cons u l ih =>
    obtain ⟨hu, hl⟩ := h
    have htl : t ≠ u ∧ t ∉ l := not_or.1 fun hmem => ht (List.mem_cons.2 hmem)
    cases rounds with
    | zero => cases hr
    | succ rounds =>
      have hr' : l.length ≤ rounds := Nat.le_of_succ_le_succ hr
      cases hd : drop u with
      | true =>
        have hskip : Chained (Function.update next t (next u))
            (Function.update next t (next u) t) l := by
          rw [Function.update_self]
          exact hl.update htl.2 _
        obtain ⟨next', heq, hchain, hother⟩ := ih hskip htl.2 hr'
        refine ⟨next', ?_, ?_, fun b hb hmem => ?_⟩
        · simp only [removeLoop, hu, hd, if_true]
          exact heq
        · rw [List.filter_cons_of_neg (by simp [hd])]
          exact hchain
        · rw [hother b hb fun hbl => hmem (List.mem_cons_of_mem _ hbl), Function.update_of_ne hb]
      | false =>
        have hnot : u ∉ l := (List.nodup_cons.1 (nodup (p := some u) ⟨rfl, hl⟩)).1
        obtain ⟨next', heq, hchain, hother⟩ := ih hl hnot hr'
        have hnext : next' t = some u := by
          rw [hother t htl.1 htl.2, hu]
        refine ⟨next', ?_, ?_, fun b hb hmem => ?_⟩
        · simp only [removeLoop, hu, hd, if_false, Bool.false_eq_true]
          exact heq
        · rw [List.filter_cons_of_pos (by simp [hd])]
          exact ⟨hnext, hchain⟩
        · exact hother b (fun hbu => hmem (hbu ▸ List.mem_cons_self)) fun hbl =>
            hmem (List.mem_cons_of_mem _ hbl)

end Chained

end WsnAggregation.Lib
