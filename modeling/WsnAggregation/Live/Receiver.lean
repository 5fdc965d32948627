import WsnAggregation.Lib.Polling
import WsnAggregation.Live.Parse

/-!
# The live receiver

`MoteDataReceiver`, which remembers how far it has read a file and returns what was added since,
stripped and split into lines, and the loop of `update_box_plot` for one of the receivers. The
files are ASCII and have no carriage returns, so a position is a number of characters.

* `follow_eq_polled` — what the loop does is to parse the text that each poll adds on its own.
* `parseText_line`, `parseText_piece` — the text up to a line feed, and text without one.
-/

namespace WsnAggregation.Live

open Lib

/-! ## The source's code -/

/-- A receiver. -/
structure Receiver where
  lastPosition : ℕ
  deriving DecidableEq

/-- A new receiver. -/
def Receiver.init : Receiver := ⟨0⟩

/-- `MoteDataReceiver.read`, of a file with these contents. -/
def Receiver.read (file : List Char) (r : Receiver) : Receiver × Option (List (List Char)) :=
  if r.lastPosition < file.length then
    let newData := file.drop r.lastPosition
    if newData ≠ [] then
      (⟨r.lastPosition + newData.length⟩, some ((strip newData).splitOn '\n'))
    else (r, none)
  else (r, none)

/-- One round of the loop for one receiver, when the file has grown to a size. -/
def poll (file : List Char) (p : Receiver × Store) (size : ℕ) : Receiver × Store :=
  match p.1.read (file.take size) with
  | (r, none) => (r, p.2)
  | (r, some rcvData) => (r, if rcvData ≠ [] then parseData rcvData p.2 else p.2)

/-- The dictionaries after polls of a growing file that find these sizes. -/
def follow (file : List Char) (sizes : List ℕ) (s : Store) : Store :=
  (sizes.foldl (poll file) (.init, s)).2

/-! ## Texts -/

/-- What is done with the text that a poll adds. -/
def parseText (t : List Char) (s : Store) : Store := parseData ((strip t).splitOn '\n') s

theorem effect_nil : effect [] = .ignored := rfl

@[simp] theorem parseText_nil (s : Store) : parseText [] s = s := by
  rw [parseText, show (strip []).splitOn '\n' = [[]] from rfl, parseData_singleton]
  rfl

theorem poll_eq {file : List Char} {pos size : ℕ} (hpos : pos ≤ size) (hsize : size ≤ file.length)
    (s : Store) :
    poll file (⟨pos⟩, s) size = (⟨size⟩, parseText ((file.take size).drop pos) s) := by
  have hlen : (file.take size).length = size := List.length_take_of_le hsize
  by_cases hlt : pos < size
  · have hne : (file.take size).drop pos ≠ [] := by
      rw [← List.length_pos_iff, List.length_drop]
      omega
    have hread : Receiver.read (file.take size) ⟨pos⟩ =
        (⟨size⟩, some ((strip ((file.take size).drop pos)).splitOn '\n')) := by
      rw [Receiver.read, hlen, if_pos hlt, if_pos hne, List.length_drop, hlen]
      simp only [show pos + (size - pos) = size by omega]
    have hsplit : (strip ((file.take size).drop pos)).splitOn '\n' ≠ [] :=
      List.splitOn_ne_nil _ _
    simp only [poll, hread, if_pos hsplit, parseText]
  · have hread : Receiver.read (file.take size) ⟨pos⟩ = (⟨pos⟩, none) := by
      rw [Receiver.read, hlen, if_neg hlt]
    have hnil : (file.take size).drop pos = [] := List.drop_eq_nil_of_le (by omega)
    simp only [poll, hread, hnil, parseText_nil]
    rw [show pos = size by omega]

/-- **Each poll parses what it adds on its own.** -/
theorem follow_eq_polled {file : List Char} {sizes : List ℕ} (hsorted : sizes.Pairwise (· ≤ ·))
    (hsize : ∀ size ∈ sizes, size ≤ file.length) (s : Store) :
    follow file sizes s = polled parseText file 0 sizes s := by
  have hrun : ∀ pos s, (pos :: sizes).Pairwise (· ≤ ·) →
      (sizes.foldl (poll file) (⟨pos⟩, s)).2 = polled parseText file pos sizes s := by
    clear hsorted s
    induction sizes with
    | nil => exact fun pos s _ => rfl
    | cons size sizes ih =>
      intro pos s hsorted
      have hpos : pos ≤ size := (List.pairwise_cons.1 hsorted).1 size List.mem_cons_self
      rw [List.foldl_cons, poll_eq hpos (hsize size List.mem_cons_self), polled]
      exact ih (fun n hn => hsize n (List.mem_cons_of_mem _ hn)) size _
        (List.pairwise_cons.1 hsorted).2
  exact hrun 0 s (List.pairwise_cons.2 ⟨fun n _ => Nat.zero_le n, hsorted⟩)

/-! ## Lines of a text -/

theorem parseText_piece {t : List Char} (h : '\n' ∉ t) (s : Store) :
    parseText t s = (effect (strip t)).apply s := by
  rw [parseText, List.splitOn_eq_singleton (not_mem_strip h), parseData_singleton]

/-- A line that does not raise is parsed before the text after it. -/
theorem parseText_line {t u : List Char} {e : Effect} (ht : '\n' ∉ t) (hu : Starts u)
    (hstrip : effect (strip t) = e) (hleft : effect (t.dropWhile isSpace) = e)
    (he : e.raises = false) (s : Store) :
    parseText (t ++ '\n' :: u) s = parseText u (e.apply s) := by
  by_cases hblank : t.dropWhile isSpace = []
  · -- The line is blank, and stripped off.
    have hspace : ∀ c ∈ t ++ ['\n'], isSpace c = true := by
      intro c hc
      rcases List.mem_append.1 hc with hc | hc
      · exact List.dropWhile_eq_nil_iff.1 hblank c hc
      · exact isSpace_newline c hc
    have hstripped : strip (t ++ '\n' :: u) = strip u := by
      have hdrop := strip_space_append (s := u) hspace
      rwa [List.append_assoc, List.singleton_append] at hdrop
    rw [hblank, effect_nil] at hleft
    rw [parseText, hstripped, ← hleft]
    rfl
  · by_cases hempty : u = []
    · rw [hempty, parseText_nil, ← hstrip, ← parseText_piece ht, parseText,
        strip_append_space isSpace_newline, parseText]
    · -- The line keeps the white space at its end.
      have hstripped : strip (t ++ '\n' :: u) = t.dropWhile isSpace ++ '\n' :: strip u := by
        have hne : u.rdropWhile isSpace ≠ [] := by
          obtain ⟨c, v, rfl⟩ := List.exists_cons_of_ne_nil hempty
          exact Begins.rdropWhile_ne_nil ⟨c, v, rfl, hu c rfl⟩
        rw [strip, List.dropWhile_append, if_neg (by simpa using hblank), strip_of_starts hu,
          List.append_cons, rdropWhile_append_of_ne_nil hne]
        simp
      have hmem : '\n' ∉ t.dropWhile isSpace := fun hc => ht ((List.dropWhile_suffix _).subset hc)
      have hresult : e.result = .ok () := by
        rw [Effect.raises, Bool.not_eq_false'] at he
        cases hr : e.result with
        | error x =>
          rw [hr] at he
          cases he
        | ok x => rfl
      have hline : parseLine (t.dropWhile isSpace) s = (e.apply s, .ok ()) := by
        rw [parseLine_eq, hleft, hresult]
      rw [parseText, hstripped, List.splitOn_append_cons_self_of_not_mem hmem, parseData,
        tryLoop_cons_ok hline]
      rfl

end WsnAggregation.Live
