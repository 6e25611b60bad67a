import TextualData.Proofs.ComparedRuns
import TextualData.Proofs.Lines
import TextualData.Proofs.Terms

/-!
# What stands before the entries of a text

Blanks and comments at the start of a text do not change the hash that the text denotes, if the line
up to there is blank after them (`Source.evaluateHash_gap`). Anything else but a brace gives the
hash an entry (`Reads.entries_ne_nil_of_begins`).
-/

namespace TextualData

variable {resolves : FunctionCall → Value → Prop} {forced broken : Bool} {h : Hash}

theorem Text.isLineBlankBefore_of_blanks {before : List Char} (hblank : ∀ x ∈ before, isBlank x) :
    isLineBlankBefore before := by
  rw [isLineBlankBefore, List.all_eq_true]
  exact fun x hx => hblank x ((List.takeWhile_sublist _).subset hx)

/-- Blanks before a gap at the start of a line. -/
theorem Blanks.Gap.of_blanks {l m : List Char} (hblank : ∀ x ∈ l, Text.isBlank x)
    (more : Gap true m broken) : ∃ broken', Gap true (l ++ m) broken' := by
  induction l with
  | nil => exact ⟨broken, more⟩
  | cons x l ih =>
    obtain ⟨broken', hgap⟩ := ih fun y hy => hblank y (List.mem_cons_of_mem _ hy)
    exact ⟨_, .blank (hblank x (by simp)) (by rwa [Bool.or_true])⟩

theorem Entries.insert_ne_nil (es : Hash) (key : String) (v : Value) : es.insert key v ≠ [] := by
  cases es with
  | nil => simp [insert]
  | cons e es =>
    unfold insert
    split <;> simp

theorem Entries.merge_ne_nil {es : Hash} (h : es ≠ []) (more : Hash) : es.merge more ≠ [] := by
  induction more generalizing es with
  | nil => exact h
  | cons e more ih => exact ih (insert_ne_nil es e.1 e.2)

namespace Reads

variable {closing : Option Char} {old new : Hash} {c c' : Cursor}

/-- Entries are never taken away. -/
theorem entries_ne_nil (h : Reads resolves (.entries closing forced old new) c c')
    (nonempty : old ≠ []) : new ≠ [] := by
  generalize hp : Phrase.entries closing forced old new = phrase at h
  induction h generalizing old with
  | noEntries =>
    cases hp
    exact nonempty
  | pair _ _ _ _ _ _ _ _ _ _ ih | flag _ _ _ _ _ _ ih =>
    cases hp
    exact ih (Entries.insert_ne_nil _ _ _) rfl
  | merge _ _ _ _ _ _ _ ih =>
    cases hp
    exact ih (Entries.merge_ne_nil nonempty _) rfl
  | _ => cases hp

/-- A hash in the place of a key begins with its brace. -/
theorem peek?_of_hash_key (h : Reads resolves (.value forced true (.hash new)) c c') :
    c.peek? = some '{' := by
  generalize hv : Value.hash new = v at h
  cases h with
  | hash opens => exact opens
  | token => simp [tokenValue] at hv
  | _ => cases hv

/-- Where anything but a brace begins, there are entries. -/
theorem entries_ne_nil_of_begins {x : Char}
    (h : Reads Unresolved (.entries closing forced old new) c c') (hpeek : c.peek? = some x)
    (noClosing : closing ≠ some x) (noBrace : x ≠ '{') : new ≠ [] := by
  cases h with
  | noEntries closes => exact absurd (closes.symm.trans hpeek) noClosing
  | pair _ _ _ _ _ _ _ more | flag _ _ _ _ more =>
    exact more.entries_ne_nil (Entries.insert_ne_nil _ _ _)
  | merge _ first means =>
    obtain rfl := means.eq_of_unresolved
    have hbrace := peek?_of_hash_key first
    rw [hpeek] at hbrace
    exact absurd (Option.some.inj hbrace) noBrace

end Reads

namespace Cursor

variable {c : Cursor} {l rest ahead : List Char}

/-- Where blanks lead to the end of the window, there are no entries. -/
theorem readsAsHash_of_blanks_end {c' : Cursor} (hb : Scan.blanks c = .ok broken c')
    (hend : c'.rest = []) : c.ReadsAsHash resolves forced h ↔ h = [] := by
  have hpeek : c'.peek? = none := by rw [peek?, hend, List.head?_nil]
  constructor
  · rintro ⟨broken', c₁, c₂, hb', hread⟩
    obtain ⟨rfl, rfl⟩ := Scan.blanks_unique hb hb'
    exact (hread.entries_eq hpeek).1
  · rintro rfl
    exact ⟨broken, c', c', hb, .noEntries hpeek⟩

/-- Entries read the same from the start of a gap and from its end. -/
theorem readsAsHash_pass_gap (hrest : c.rest = l ++ rest)
    (hgap : Blanks.Gap (Text.isLineBlankBefore c.before) l broken) :
    c.ReadsAsHash resolves forced h ↔ (c.pass l rest).ReadsAsHash resolves forced h := by
  have hblanks := Scan.blanks_eq_of_gap hrest hgap
  constructor
  · rintro ⟨broken', c₁, c₂, hb, hread⟩
    rw [hblanks] at hb
    cases hpassed : Scan.blanks (c.pass l rest) with
    | ok broken₁ c' =>
      rw [hpassed] at hb
      obtain ⟨-, rfl⟩ := EStateM.Result.ok.inj hb
      exact ⟨broken₁, c', c₂, hpassed, hread⟩
    | error fault c' =>
      rw [hpassed] at hb
      cases hb
  · rintro ⟨broken', c₁, c₂, hb, hread⟩
    rw [hb] at hblanks
    exact ⟨_, c₁, c₂, hblanks, hread⟩

open Evaluation in
/-- Entries read the same behind text that leaves its last line blank. -/
theorem readsAsHash_behind (hline : Text.isLineBlankBefore ahead) :
    (c.behind ahead).ReadsAsHash Unresolved forced h ↔ c.ReadsAsHash Unresolved forced h := by
  let p : Comparison := ⟨⟨"", none⟩, ⟨"", none⟩, ahead, hline⟩
  have hleft : (run (topHash p.onLeft forced) (c.behind ahead) ()).1 = .ok h ↔
      (c.behind ahead).ReadsAsHash Unresolved forced h :=
    topHash_eq_ok Environment.unresolving_isSilent Environment.unresolving_resolvesWithin
      Environment.unresolving_resolves
  have hright : (run (topHash p.onRight forced) c ()).1 = .ok h ↔
      c.ReadsAsHash Unresolved forced h :=
    topHash_eq_ok Environment.unresolving_isSilent Environment.unresolving_resolvesWithin
      Environment.unresolving_resolves
  have hsame := (Comparison.topHash_alike (p := p) (S := fun _ _ => True) (.eq forced)).run c
  rw [← hleft, ← hright]
  generalize (run (topHash p.onLeft forced) (c.behind ahead) ()).1 = r,
    (run (topHash p.onRight forced) c ()).1 = r' at hsame ⊢
  cases hsame with
  | ok result =>
    rw [Entries.alike_eq_iff.1 result]
  | error => simp

end Cursor

namespace Source

variable {l rest m : List Char} {file : Option String}

/-- Blanks and comments in front, up to where the line is blank, do not change the hash of a
text. -/
theorem evaluateHash_gap (hgap : Blanks.Gap true l broken)
    (hline : Text.isLineBlankBefore l.reverse) :
    ((Source.mk (String.ofList (l ++ rest)) file).evaluateHash .unresolving forced ()).1 = .ok h ↔
      ((Source.mk (String.ofList rest) file).evaluateHash .unresolving forced ()).1 = .ok h := by
  have hbehind : (Cursor.ofText (l ++ rest)).pass l rest =
      (Cursor.ofText rest).behind l.reverse := by
    simp [Cursor.ofText, Cursor.pass, Cursor.behind]
  rw [evaluateHash_eq_ok, evaluateHash_eq_ok, String.toList_ofList, String.toList_ofList,
    Cursor.readsAsHash_pass_gap (c := .ofText (l ++ rest)) rfl hgap, hbehind,
    Cursor.readsAsHash_behind hline]

theorem evaluateHash_nil :
    ((Source.mk (String.ofList []) file).evaluateHash .unresolving forced ()).1 = .ok h ↔
      h = [] := by
  rw [evaluateHash_eq_ok, String.toList_ofList]
  exact Cursor.readsAsHash_of_blanks_end (Scan.blanks_of_rest_eq_nil rfl) rfl

/-- A text of blanks and one comment to its end has no entries. -/
theorem evaluateHash_comment (hblank : ∀ x ∈ l, Text.isBlank x)
    (inLine : ∀ x ∈ m, Text.isLineBreak x = false) :
    ((Source.mk (String.ofList (l ++ '#' :: m)) file).evaluateHash .unresolving forced ()).1 =
      .ok h ↔ h = [] := by
  let start := Cursor.ofText (l ++ '#' :: m)
  have hline : (start.pass l ('#' :: m)).BeginsLine := by
    rw [Cursor.BeginsLine, Cursor.pass, show start.before = [] from rfl, List.append_nil]
    exact Text.isLineBlankBefore_of_blanks fun x hx => hblank x (List.mem_reverse.1 hx)
  obtain ⟨broken, hgap⟩ := Blanks.Gap.of_blanks hblank .nil
  rw [List.append_nil] at hgap
  have hblanks := Scan.blanks_gap (c := start) rfl hgap (Scan.blanks_lastComment hline inLine rfl)
  rw [evaluateHash_eq_ok, String.toList_ofList]
  exact Cursor.readsAsHash_of_blanks_end hblanks rfl

/-- A comment in front of the rest of a text, blanks before it and all, does not change the hash of
the text. -/
theorem evaluateHash_leading_comment (hblank : ∀ x ∈ l, Text.isBlank x)
    (inLine : ∀ x ∈ m, Text.isLineBreak x = false)
    (hrest : ∀ x ∈ rest.head?, Text.isLineBreak x) :
    ((Source.mk (String.ofList (l ++ '#' :: m ++ rest)) file).evaluateHash .unresolving
        forced ()).1 = .ok h ↔
      ((Source.mk (String.ofList rest) file).evaluateHash .unresolving forced ()).1 = .ok h := by
  cases rest with
  | nil => rw [List.append_nil, evaluateHash_comment hblank inLine, evaluateHash_nil]
  | cons x rest =>
    have ends := hrest x rfl
    -- Both texts go on behind the line break.
    obtain ⟨broken, hcomment⟩ := Blanks.Gap.of_blanks hblank (.lineComment inLine ends .nil)
    have hbreak : Blanks.Gap true [x] (Text.isLineBreak x || false) :=
      .blank (Text.isBlank_of_isLineBreak ends) .nil
    have hline : Text.isLineBlankBefore (l ++ '#' :: (m ++ [x])).reverse := by
      simp [Text.isLineBlankBefore_cons, ends]
    have hparts : l ++ '#' :: m ++ x :: rest = l ++ '#' :: (m ++ [x]) ++ rest := by simp
    rw [hparts, evaluateHash_gap hcomment hline, ← List.singleton_append,
      evaluateHash_gap hbreak (by simp [Text.isLineBlankBefore_cons, ends])]

/-- A text that begins with anything but a comment or a brace denotes no empty hash. -/
theorem evaluateHash_ne_nil {x : Char} (hblank : ∀ y ∈ l, Text.isBlank y)
    (hx : Text.isBlank x = false) (hmark : x ≠ '<' ∧ x ≠ '#' ∧ x ≠ '{') :
    ((Source.mk (String.ofList (l ++ x :: rest)) file).evaluateHash .unresolving forced ()).1 ≠
      .ok [] := by
  let start := Cursor.ofText (l ++ x :: rest)
  have hstop : Scan.blanks (start.pass l (x :: rest)) = .ok false (start.pass l (x :: rest)) :=
    Scan.blanks_of_peek? rfl hx hmark.1 fun h => absurd h hmark.2.1
  obtain ⟨broken, hgap⟩ := Blanks.Gap.of_blanks hblank .nil
  rw [List.append_nil] at hgap
  have hblanks := Scan.blanks_gap (c := start) rfl hgap hstop
  rw [ne_eq, evaluateHash_eq_ok, String.toList_ofList]
  rintro ⟨broken', c₁, c₂, hb, hread⟩
  obtain ⟨-, rfl⟩ := Scan.blanks_unique hblanks hb
  exact hread.entries_ne_nil_of_begins rfl (by simp) hmark.2.2 rfl

end Source

end TextualData
