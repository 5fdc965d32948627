import Mathlib.Data.List.Induction

/-!
# Records read in pieces

A file of records grows while it is polled. Each poll hands what is new to a parser, whatever
record it ends in, and nothing of a piece is kept for the next.

If the parser makes of the first piece of a record what `see` says, and nothing of its other
pieces (`Piecewise`), then every record is seen once: as much of it as is there when the file
first reaches beyond its start (`polled_eq`).
-/

namespace WsnAggregation.Lib

variable {ρ α σ : Type}

/-- Polls of a file that find these sizes, from a position in it. -/
def polled (parse : List α → σ → σ) (file : List α) : ℕ → List ℕ → σ → σ
  | _, [], s => s
  | pos, size :: sizes, s => polled parse file size sizes (parse ((file.take size).drop pos) s)

/-- The file of these records. -/
def fileOf (text : ρ → List α) (records : List ρ) : List α := (records.map text).flatten

/-- The records that start at a position or beyond it, each with what is there of it when the
file first reaches beyond its start. -/
def seen (text : ρ → List α) : ℕ → List ℕ → List ρ → List (ρ × List α)
  | _, _, [] => []
  | pos, sizes, r :: records =>
    (if pos = 0 then (sizes.find? (0 < ·)).toList.map fun size => (r, (text r).take size) else []) ++
      seen text (pos - (text r).length) (sizes.map (· - (text r).length)) records

/-- What a parser makes of the pieces of a record. `Start` holds of what may follow a record: the
beginning of others. -/
structure Piecewise (text : ρ → List α) (parse : List α → σ → σ) (see : ρ → List α → σ → σ)
    (Start : List α → Prop) (r : ρ) : Prop where
  start : ∀ size t, Start ((text r ++ t).take size)
  whole : ∀ t s, Start t → parse (text r ++ t) s = parse t (see r (text r) s)
  first : ∀ size s, 0 < size → size < (text r).length →
    parse ((text r).take size) s = see r ((text r).take size) s
  middle : ∀ pos size s, 0 < pos → size < (text r).length →
    parse (((text r).take size).drop pos) s = s
  last : ∀ pos t s, 0 < pos → pos < (text r).length → Start t →
    parse ((text r).drop pos ++ t) s = parse t s

variable {text : ρ → List α} {parse : List α → σ → σ} {see : ρ → List α → σ → σ}
  {Start : List α → Prop}

@[simp] theorem fileOf_nil : fileOf text [] = [] := rfl

@[simp] theorem fileOf_cons (r : ρ) (records : List ρ) :
    fileOf text (r :: records) = text r ++ fileOf text records := rfl

@[simp] theorem seen_no_size (pos : ℕ) (records : List ρ) : seen text pos [] records = [] := by
  induction records generalizing pos with
  | nil => rfl
  | cons r records ih => simp [seen, ih]

@[simp] theorem seen_zero (pos : ℕ) (records : List ρ) : seen text pos [0] records = [] := by
  induction records generalizing pos with
  | nil => rfl
  | cons r records ih => simp [seen, ih]

theorem seen_cons {pos size : ℕ} {sizes : List ℕ} (h : (pos :: size :: sizes).Pairwise (· ≤ ·))
    (records : List ρ) :
    seen text pos (size :: sizes) records =
      seen text pos [size] records ++ seen text size sizes records := by
  induction records generalizing pos size sizes with
  | nil => rfl
  | cons r records ih =>
    have hsub : ((pos - (text r).length) :: (size :: sizes).map (· - (text r).length)).Pairwise
        (· ≤ ·) := by
      have hmap : ((pos :: size :: sizes).map (· - (text r).length)).Pairwise (· ≤ ·) :=
        List.pairwise_map.2 (h.imp fun hle => Nat.sub_le_sub_right hle _)
      exact hmap
    have hrest := ih hsub
    have hpos : pos ≤ size := (List.pairwise_cons.1 h).1 size List.mem_cons_self
    simp only [seen, List.map_cons, List.map_nil]
    rw [hrest]
    by_cases hsize : size = 0
    · have hzero : pos = 0 := by omega
      subst hsize hzero
      simp
    · rw [if_neg hsize, List.nil_append, ← List.append_assoc]
      by_cases hzero : pos = 0
      · simp [hzero, Nat.pos_of_ne_zero hsize]
      · simp [hzero]

section

variable {records : List ρ} (h : ∀ r ∈ records, Piecewise text parse see Start r)
  (hnil : ∀ s, parse [] s = s) (hstart : Start [])
include h hnil hstart

omit hnil in
theorem start_take (size : ℕ) : Start ((fileOf text records).take size) := by
  cases records with
  | nil => simpa using hstart
  | cons r records => exact (h r List.mem_cons_self).start size _

/-- What one poll makes of the records. -/
theorem parse_piece {pos size : ℕ} (hpos : pos ≤ size) (s : σ) :
    parse (((fileOf text records).take size).drop pos) s =
      (seen text pos [size] records).foldl (fun s p => see p.1 p.2 s) s := by
  induction records generalizing pos size s with
  | nil => simpa [seen] using hnil s
  | cons r records ih =>
    have hr := h r List.mem_cons_self
    have htail : ∀ q ∈ records, Piecewise text parse see Start q := fun q hq =>
      h q (List.mem_cons_of_mem _ hq)
    have hnext := start_take htail hstart (size - (text r).length)
    rcases Nat.lt_or_ge size (text r).length with hlt | hge
    · -- The poll ends inside the record.
      have htake : (fileOf text (r :: records)).take size = (text r).take size :=
        List.take_append_of_le_length (Nat.le_of_lt hlt)
      have hsub : pos - (text r).length = 0 ∧ size - (text r).length = 0 := by omega
      rw [htake, seen, List.map_singleton, hsub.1, hsub.2, seen_zero, List.append_nil]
      by_cases hzero : pos = 0
      · by_cases hsize : size = 0
        · simpa [hzero, hsize] using hnil s
        · simpa [hzero, Nat.pos_of_ne_zero hsize] using hr.first size s (by omega) hlt
      · simpa [hzero] using hr.middle pos size s (Nat.pos_of_ne_zero hzero) hlt
    · -- It ends beyond the record.
      have htake : (fileOf text (r :: records)).take size =
          text r ++ (fileOf text records).take (size - (text r).length) := by
        rw [fileOf_cons, List.take_append, List.take_of_length_le hge]
      have hle : pos - (text r).length ≤ size - (text r).length := by omega
      have hrest := fun s => ih htail hle s
      rw [htake, seen, List.map_singleton, List.foldl_append, ← hrest]
      by_cases hzero : pos = 0
      · have hpiece : (text r).take size = text r := List.take_of_length_le hge
        subst hzero
        by_cases hsize : size = 0
        · have hempty : text r = [] := List.eq_nil_of_length_eq_zero (by omega)
          simp [hsize, hempty]
        · simpa [Nat.pos_of_ne_zero hsize, hpiece] using hr.whole _ s hnext
      · rw [if_neg hzero]
        rcases Nat.lt_or_ge pos (text r).length with hin | hout
        · rw [List.drop_append_of_le_length (Nat.le_of_lt hin),
            hr.last pos _ s (Nat.pos_of_ne_zero hzero) hin hnext,
            show pos - (text r).length = 0 by omega]
          rfl
        · rw [List.drop_append, List.drop_of_length_le hout]
          rfl

/-- **Every record is seen once.** -/
theorem polled_eq {pos : ℕ} {sizes : List ℕ} (hsizes : (pos :: sizes).Pairwise (· ≤ ·)) (s : σ) :
    polled parse (fileOf text records) pos sizes s =
      (seen text pos sizes records).foldl (fun s p => see p.1 p.2 s) s := by
  induction sizes generalizing pos s with
  | nil => simp [polled]
  | cons size sizes ih =>
    have hpos : pos ≤ size := (List.pairwise_cons.1 hsizes).1 size List.mem_cons_self
    rw [polled, parse_piece h hnil hstart hpos, ih (List.pairwise_cons.1 hsizes).2, seen_cons hsizes,
      List.foldl_append]

end

/-! ## What is seen -/

theorem find?_sub (o m : ℕ) (sizes : List ℕ) :
    (sizes.map (· - m)).find? (o < ·) = (sizes.find? (m + o < ·)).map (· - m) := by
  rw [List.find?_map]
  congr 2
  funext size
  simp only [Function.comp_apply, decide_eq_decide]
  omega

theorem lt_of_find? {o size : ℕ} {sizes : List ℕ} (h : sizes.find? (o < ·) = some size) :
    o < size := by
  simpa using List.find?_some h

/-- A record is seen at the first size beyond its start. -/
theorem mem_seen_iff {sizes : List ℕ} {records : List ρ} {r : ρ} {piece : List α} :
    (r, piece) ∈ seen text 0 sizes records ↔ ∃ before after, records = before ++ r :: after ∧
      ∃ size, sizes.find? ((fileOf text before).length < ·) = some size ∧
        piece = (text r).take (size - (fileOf text before).length) := by
  induction records generalizing sizes with
  | nil => simp [seen]
  | cons q records ih =>
    have hhead : (r, piece) ∈ (sizes.find? (0 < ·)).toList.map (fun size => (q, (text q).take size)) ↔
        q = r ∧ ∃ size, sizes.find? (0 < ·) = some size ∧ piece = (text r).take size := by
      simp only [List.mem_map, Option.mem_toList, Prod.mk.injEq]
      constructor
      · rintro ⟨size, hsize, rfl, rfl⟩
        exact ⟨rfl, size, hsize, rfl⟩
      · rintro ⟨rfl, size, hsize, rfl⟩
        exact ⟨size, hsize, rfl, rfl⟩
    rw [seen, if_pos rfl, Nat.zero_sub, List.mem_append, hhead, ih]
    constructor
    · rintro (⟨rfl, size, hsize, hpiece⟩ | ⟨before, after, rfl, size, hsize, hpiece⟩)
      · exact ⟨[], records, rfl, size, hsize, hpiece⟩
      · rw [find?_sub, Option.map_eq_some_iff] at hsize
        obtain ⟨whole, hwhole, rfl⟩ := hsize
        refine ⟨q :: before, after, rfl, whole, ?_, ?_⟩
        · rw [fileOf_cons, List.length_append]
          exact hwhole
        · rw [hpiece, fileOf_cons, List.length_append, Nat.sub_sub]
    · rintro ⟨before, after, heq, size, hsize, hpiece⟩
      cases before with
      | nil =>
        rw [List.nil_append, List.cons.injEq] at heq
        exact Or.inl ⟨heq.1, size, hsize, hpiece⟩
      | cons p before =>
        rw [List.cons_append, List.cons.injEq] at heq
        obtain ⟨rfl, rfl⟩ := heq
        rw [fileOf_cons, List.length_append] at hsize hpiece
        refine Or.inr ⟨before, after, rfl, size - (text q).length, ?_, ?_⟩
        · rw [find?_sub, hsize, Option.map_some]
        · rw [hpiece, Nat.sub_sub]

/-- If the file is polled when it is whole, every record is seen. -/
theorem map_fst_seen {sizes : List ℕ} {records : List ρ} (hne : ∀ r ∈ records, text r ≠ [])
    (h : ∃ size ∈ sizes, (fileOf text records).length ≤ size) :
    (seen text 0 sizes records).map Prod.fst = records := by
  induction records generalizing sizes with
  | nil => rfl
  | cons r records ih =>
    obtain ⟨size, hmem, hle⟩ := h
    rw [fileOf_cons, List.length_append] at hle
    have hpos := List.length_pos_iff.2 (hne r List.mem_cons_self)
    have hfind : (sizes.find? (0 < ·)).isSome = true := by
      rw [List.find?_isSome]
      exact ⟨size, hmem, decide_eq_true (by omega)⟩
    obtain ⟨first, hfirst⟩ := Option.isSome_iff_exists.1 hfind
    have hrest : (seen text 0 (sizes.map (· - (text r).length)) records).map Prod.fst = records :=
      ih (fun q hq => hne q (List.mem_cons_of_mem _ hq))
      ⟨size - (text r).length, List.mem_map.2 ⟨size, hmem, rfl⟩, by omega⟩
    rw [seen, if_pos rfl, Nat.zero_sub, hfirst, List.map_append, hrest]
    rfl

/-- One poll of the whole file sees whole records. -/
theorem seen_whole {records : List ρ} (hne : ∀ r ∈ records, text r ≠ []) {size : ℕ}
    (h : (fileOf text records).length ≤ size) :
    seen text 0 [size] records = records.map fun r => (r, text r) := by
  induction records generalizing size with
  | nil => rfl
  | cons r records ih =>
    rw [fileOf_cons, List.length_append] at h
    have hpos := List.length_pos_iff.2 (hne r List.mem_cons_self)
    have hrest : seen text 0 [size - (text r).length] records = records.map fun r => (r, text r) :=
      ih (fun q hq => hne q (List.mem_cons_of_mem _ hq)) (by omega)
    have hsize : 0 < size := by omega
    have htake : (text r).take size = text r := List.take_of_length_le (by omega)
    rw [seen, if_pos rfl, Nat.zero_sub, List.map_singleton, hrest]
    simp [hsize, htake]

/-! ## Growing files -/

theorem seen_of_zero {sizes : List ℕ} (h : ∀ size ∈ sizes, size = 0) (pos : ℕ) (records : List ρ) :
    seen text pos sizes records = [] := by
  induction records generalizing pos sizes with
  | nil => rfl
  | cons r records ih =>
    have hfind : sizes.find? (0 < ·) = none := by
      rw [List.find?_eq_none]
      intro size hsize
      simp [h size hsize]
    have hrest : ∀ size ∈ sizes.map (· - (text r).length), size = 0 := by
      intro size hsize
      obtain ⟨whole, hwhole, rfl⟩ := List.mem_map.1 hsize
      rw [h whole hwhole, Nat.zero_sub]
    rw [seen, hfind, ih hrest]
    simp

/-- Records that no poll has reached make no difference. -/
theorem seen_append {sizes : List ℕ} {records : List ρ}
    (h : ∀ size ∈ sizes, size ≤ (fileOf text records).length) (pos : ℕ) (new : List ρ) :
    seen text pos sizes (records ++ new) = seen text pos sizes records := by
  induction records generalizing pos sizes with
  | nil => exact seen_of_zero (fun size hsize => Nat.le_zero.1 (h size hsize)) pos new
  | cons r records ih =>
    have hrest : ∀ size ∈ sizes.map (· - (text r).length), size ≤ (fileOf text records).length := by
      intro size hsize
      obtain ⟨whole, hwhole, rfl⟩ := List.mem_map.1 hsize
      have hle := h whole hwhole
      rw [fileOf_cons, List.length_append] at hle
      omega
    rw [List.cons_append, seen, seen, ih hrest]

/-- One more poll sees what starts beyond the last. -/
theorem seen_concat {pos size : ℕ} {sizes : List ℕ}
    (h : (pos :: (sizes ++ [size])).Pairwise (· ≤ ·)) (records : List ρ) :
    seen text pos (sizes ++ [size]) records =
      seen text pos sizes records ++ seen text (sizes.getLastD pos) [size] records := by
  induction sizes generalizing pos with
  | nil => simp
  | cons first sizes ih =>
    rw [List.cons_append] at h ⊢
    have hsub : (pos :: first :: sizes).Pairwise (· ≤ ·) := h.sublist (by simp)
    have hrest := ih (List.pairwise_cons.1 h).2
    rw [seen_cons h, hrest, seen_cons hsub, List.getLastD_cons, List.append_assoc]

theorem map_fst_seen_sublist (pos : ℕ) (sizes : List ℕ) (records : List ρ) :
    ((seen text pos sizes records).map Prod.fst).Sublist records := by
  induction records generalizing pos sizes with
  | nil => exact List.Sublist.refl _
  | cons r records ih =>
    have hrest := ih (pos - (text r).length) (sizes.map (· - (text r).length))
    rw [seen, List.map_append]
    by_cases hpos : pos = 0
    · rw [if_pos hpos]
      cases sizes.find? (0 < ·) with
      | none => exact hrest.cons r
      | some size => exact hrest.cons_cons r
    · rw [if_neg hpos]
      exact hrest.cons r

/-- A poll from the end of a record to that of another sees those between, whole. -/
theorem seen_between {a b : List ρ} (hne : ∀ r ∈ a ++ b, text r ≠ []) :
    seen text (fileOf text a).length [(fileOf text (a ++ b)).length] (a ++ b) =
      b.map fun r => (r, text r) := by
  induction a with
  | nil => exact seen_whole hne (Nat.le_refl _)
  | cons q a ih =>
    have hq := List.length_pos_iff.2 (hne q List.mem_cons_self)
    have hrest := ih fun r hr => hne r (List.mem_cons_of_mem _ hr)
    rw [List.cons_append, seen, List.map_singleton, fileOf_cons, fileOf_cons, List.length_append,
      List.length_append, Nat.add_sub_cancel_left, Nat.add_sub_cancel_left, hrest, if_neg (by omega),
      List.nil_append]

/-- Polls that all find whole records see whole records, up to the last. -/
theorem seen_of_whole {sizes : List ℕ} {records : List ρ} (hne : ∀ r ∈ records, text r ≠ [])
    (hsorted : sizes.Pairwise (· ≤ ·))
    (h : ∀ size ∈ sizes, ∃ a, a <+: records ∧ size = (fileOf text a).length) :
    ∃ a, a <+: records ∧ sizes.getLastD 0 = (fileOf text a).length ∧
      seen text 0 sizes records = a.map fun r => (r, text r) := by
  induction sizes using List.reverseRecOn with
  | nil => exact ⟨[], List.nil_prefix, rfl, by simp⟩
  | append_singleton sizes size ih =>
    obtain ⟨a, ha, hlast, hseen⟩ := ih (List.pairwise_append.1 hsorted).1 fun n hn =>
      h n (List.mem_append_left _ hn)
    obtain ⟨b, hb, hsize⟩ := h size (List.mem_append_right _ List.mem_cons_self)
    have hle : (fileOf text a).length ≤ size := by
      rw [← hlast]
      cases hget : sizes.getLast? with
      | none => simp [List.getLast?_eq_none_iff.1 hget]
      | some last =>
        rw [List.getLastD_eq_getLast?, hget, Option.getD_some]
        exact (List.pairwise_append.1 hsorted).2.2 last (List.mem_of_getLast? hget) size
          List.mem_cons_self
    have hab : a <+: b := by
      rcases List.prefix_or_prefix_of_prefix ha hb with hab | ⟨c, rfl⟩
      · exact hab
      · -- The poll finds nothing new, so there is no record between.
        have hc : c = [] := by
          cases c with
          | nil => rfl
          | cons r c =>
            have hr := List.length_pos_iff.2
              (hne r (ha.subset (List.mem_append_right _ List.mem_cons_self)))
            simp only [hsize, fileOf, List.map_append, List.flatten_append, List.map_cons,
              List.flatten_cons, List.length_append] at hle
            omega
        simp [hc]
    obtain ⟨c, rfl⟩ := hab
    obtain ⟨d, rfl⟩ := hb
    have hall : ∀ n ∈ [size], n ≤ (fileOf text (a ++ c)).length := by
      simp [hsize]
    refine ⟨a ++ c, List.prefix_append _ d, ?_, ?_⟩
    · rw [List.getLastD_eq_getLast?, List.getLast?_concat, Option.getD_some, hsize]
    · rw [seen_concat (List.pairwise_cons.2 ⟨fun n _ => Nat.zero_le n, hsorted⟩), hseen, hlast,
        seen_append hall, hsize,
        seen_between fun r hr => hne r (List.mem_append_left _ hr), List.map_append]

/-- A beginning of the file that ends with the mark that only ends records has whole records. -/
theorem whole_of_mark {mark : α} {records : List ρ}
    (hmark : ∀ r ∈ records, ∃ body, text r = body ++ [mark] ∧ mark ∉ body) {file : List α}
    (hfile : file <+: fileOf text records) (hend : ∀ c ∈ file.getLast?, c = mark) :
    ∃ a, a <+: records ∧ file = fileOf text a := by
  induction records generalizing file with
  | nil => exact ⟨[], List.nil_prefix, List.prefix_nil.1 hfile⟩
  | cons r records ih =>
    obtain ⟨body, hbody, hnot⟩ := hmark r List.mem_cons_self
    rw [fileOf_cons] at hfile
    rcases List.prefix_or_prefix_of_prefix hfile (List.prefix_append (text r) _) with hin | ⟨t, rfl⟩
    · -- The file ends inside the first record, or with it.
      rw [hbody] at hin
      rcases List.prefix_concat_iff.1 hin with rfl | hin
      · exact ⟨[r], List.prefix_append [r] records, by rw [← hbody]; simp [fileOf]⟩
      · cases hget : file.getLast? with
        | none => exact ⟨[], List.nil_prefix, List.getLast?_eq_none_iff.1 hget⟩
        | some c =>
          have hc : c ∈ body := hin.subset (List.mem_of_getLast? hget)
          rw [hend c hget] at hc
          exact absurd hc hnot
    · have hrest : ∀ c ∈ t.getLast?, c = mark := by
        intro c hc
        refine hend c ?_
        rw [List.getLast?_append, Option.mem_def.1 hc]
        rfl
      obtain ⟨a, ha, rfl⟩ := ih (fun q hq => hmark q (List.mem_cons_of_mem _ hq))
        ((List.prefix_append_right_inj _).1 hfile) hrest
      exact ⟨r :: a, List.cons_prefix_cons.2 ⟨rfl, ha⟩, rfl⟩

end WsnAggregation.Lib
