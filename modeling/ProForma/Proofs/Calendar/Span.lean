import ProForma.Calendar.Span
import ProForma.Proofs.Calendar.Month
import ProForma.Proofs.Calendar.Text

/-!
# Spans read from labels

A label of a month has no blanks and no colon in it. So it is found again between blanks and beside
a colon, and with the first day added it is the text of a date. Reading labels gives the months that
were labelled, from their first to their last day.
-/

namespace ProForma

/-! ### Blanks around a text -/

namespace Text

variable {lead trail cs : List Char}

theorem dropBlanks_append (hlead : ∀ c ∈ lead, isBlank c = true)
    (hcs : ∀ c ∈ cs.head?, isBlank c = false) : dropBlanks (lead ++ cs) = cs := by
  rw [dropBlanks, List.dropWhile_append_of_pos hlead]
  cases cs with
  | nil => rfl
  | cons c cs => exact List.dropWhile_cons_of_neg (by simp [hcs c rfl])

/-- What stands between blanks is what is left when a text is trimmed. -/
theorem trimChars_append (hlead : ∀ c ∈ lead, isBlank c = true)
    (htrail : ∀ c ∈ trail, isBlank c = true) (hcs : ∀ c ∈ cs, isBlank c = false) (hne : cs ≠ []) :
    trimChars (lead ++ cs ++ trail) = cs := by
  have hfirst : ∀ c ∈ (cs ++ trail).head?, isBlank c = false := by
    intro c hc
    rw [List.head?_append_of_ne_nil _ hne] at hc
    exact hcs c (List.mem_of_mem_head? hc)
  have hlast : ∀ c ∈ cs.reverse.head?, isBlank c = false := by
    intro c hc
    exact hcs c (List.mem_reverse.1 (List.mem_of_mem_head? hc))
  have htrail' : ∀ c ∈ trail.reverse, isBlank c = true := by
    intro c hc
    exact htrail c (List.mem_reverse.1 hc)
  rw [trimChars, List.append_assoc, dropBlanks_append hlead hfirst, List.reverse_append,
    dropBlanks_append htrail' hlast, List.reverse_reverse]

end Text

namespace Date

/-! ### The days of a month -/

/-- The first day of the month of a date. -/
def firstOfMonth (d : Date) : Date where
  year := d.year
  month := d.month
  day := 1
  hasDay := hasDay_first d.hasDay.firstYear_le d.hasDay.le_lastYear d.hasDay.one_le_month
    d.hasDay.month_le

/-- The last day of the month of a date. -/
def lastOfMonth (d : Date) : Date where
  year := d.year
  month := d.month
  day := Calendar.daysIn d.year d.month
  hasDay := { d.hasDay with
    one_le_day := d.hasDay.one_le_day.trans d.hasDay.day_le
    day_le := Nat.le_refl _ }

theorem monthEnd?_eq_lastOfMonth {d : Date} (h : ¬ d.InLastMonth) :
    monthEnd? d.year d.month = some d.lastOfMonth :=
  (monthEnd?_eq_some_iff d.hasDay.one_le_month d.hasDay.month_le).2 ⟨⟨rfl, rfl⟩, rfl, h⟩

/-- A month ends before another one begins if it is an earlier month. -/
theorem lastOfMonth_lt_iff {a b : Date} :
    a.lastOfMonth < b.firstOfMonth ↔ a.monthIndex < b.monthIndex := by
  have hday := a.lastOfMonth.hasDay.one_le_day
  have hfirst : b.firstOfMonth.day = 1 := rfl
  have hmonth : a.lastOfMonth.monthIndex = a.monthIndex := rfl
  have hmonth' : b.firstOfMonth.monthIndex = b.monthIndex := rfl
  rw [lt_iff_monthIndex]
  omega

/-! ### Labels -/

/-- The text is the label of the month of a date, perhaps with blanks around it. -/
def LabelledBy (d : Date) (text : String) : Prop :=
  ∃ lead trail : String, (∀ c ∈ lead.toList, Text.isBlank c = true) ∧
    (∀ c ∈ trail.toList, Text.isBlank c = true) ∧ text = lead ++ d.monthLabel ++ trail

theorem mem_monthLabel {d : Date} {c : Char} (hc : c ∈ d.monthLabel.toList) :
    c.isDigit ∨ c = '-' ∨ c = '+' := by
  have hsigned : ∀ {sign : String}, (∀ c ∈ sign.toList, c = '-' ∨ c = '+') →
      c ∈ (sign ++ pad 4 d.year.natAbs).toList → c.isDigit ∨ c = '-' ∨ c = '+' := by
    intro sign hsign hc
    rw [String.toList_append, List.mem_append] at hc
    rcases hc with hc | hc
    · exact .inr (hsign c hc)
    · exact .inl (isDigit_of_mem_pad hc)
  rw [monthLabel, String.toList_append, String.toList_append, List.mem_append,
    List.mem_append] at hc
  rcases hc with (hc | hc) | hc
  · unfold yearText at hc
    split at hc
    · exact .inl (isDigit_of_mem_pad hc)
    · refine hsigned ?_ hc
      split
      · simp
      · simp
  · exact .inr (.inl (by simpa using hc))
  · exact .inl (isDigit_of_mem_pad hc)

theorem isBlank_of_mem_monthLabel {d : Date} {c : Char} (hc : c ∈ d.monthLabel.toList) :
    Text.isBlank c = false := by
  rcases mem_monthLabel hc with hdigit | rfl | rfl
  · exact Reader.isBlank_of_isDigit hdigit
  · decide
  · decide

theorem LabelledBy.trimChars {d : Date} {text : String} (h : d.LabelledBy text) :
    Text.trimChars text.toList = d.monthLabel.toList := by
  obtain ⟨lead, trail, hlead, htrail, rfl⟩ := h
  rw [String.toList_append, String.toList_append]
  refine Text.trimChars_append hlead htrail (fun c => isBlank_of_mem_monthLabel) ?_
  simp [monthLabel]

theorem LabelledBy.colon_notMem {d : Date} {text : String} (h : d.LabelledBy text) :
    ':' ∉ text.toList := by
  obtain ⟨lead, trail, hlead, htrail, rfl⟩ := h
  have hblank : Text.isBlank ':' = false := by decide
  rw [String.toList_append, String.toList_append, List.mem_append, List.mem_append]
  rintro ((hc | hc) | hc)
  · exact Bool.false_ne_true (hblank.symm.trans (hlead _ hc))
  · rcases mem_monthLabel hc with hdigit | hminus | hplus
    · exact absurd hdigit (by decide)
    · exact absurd hminus (by decide)
    · exact absurd hplus (by decide)
  · exact Bool.false_ne_true (hblank.symm.trans (htrail _ hc))

end Date

namespace Span

open Date

/-! ### Pieces of a text -/

theorem splitAt_eq_splitOn (c : Char) (cs : List Char) : splitAt c cs = cs.splitOn c := by
  induction cs with
  | nil => rfl
  | cons d cs ih =>
    have hcons : (d :: cs).splitOn c =
        if d == c then [] :: cs.splitOn c else (cs.splitOn c).modifyHead (d :: ·) :=
      List.splitOnP_cons_eq_if_modifyHead d cs
    rw [splitAt, ih, hcons]
    by_cases hd : d = c
    · rw [if_pos hd, if_pos (beq_iff_eq.2 hd)]
    · rw [if_neg hd, if_neg (by simpa using hd)]
      rcases hpieces : cs.splitOn c with _ | ⟨piece, pieces⟩
      · exact absurd hpieces (List.splitOn_ne_nil c cs)
      · rfl

/-- Texts that are joined by colons are the pieces of what they are joined to. -/
theorem pieces_intercalate {texts : List String} (hne : texts ≠ [])
    (h : ∀ text ∈ texts, ':' ∉ text.toList) :
    (splitAt ':' ([':'].intercalate (texts.map String.toList))).map String.ofList = texts := by
  have hpieces : ∀ piece ∈ texts.map String.toList, ':' ∉ piece := by
    intro piece hpiece
    obtain ⟨text, htext, rfl⟩ := List.mem_map.1 hpiece
    exact h text htext
  rw [splitAt_eq_splitOn, List.splitOn_intercalate _ hpieces (by simpa using hne), List.map_map]
  simp

/-! ### Months -/

theorem monthStart_of_labelledBy {d : Date} {text : String} (h : d.LabelledBy text) :
    monthStart text = .ok d.firstOfMonth := by
  have htext : d.monthLabel.toList ++ ['-', '0', '1'] = d.firstOfMonth.text.toList := by
    have hday : pad 2 1 = "01" := by decide
    simp [Date.text, firstOfMonth, monthLabel, hday]
  rw [monthStart, h.trimChars, htext, read_text]

theorem monthEnd_of_not_inLastMonth {d e : Date} (hsame : e.year = d.year ∧ e.month = d.month)
    (h : ¬ d.InLastMonth) : monthEnd e = .ok d.lastOfMonth := by
  rw [monthEnd, hsame.1, hsame.2, monthEnd?_eq_lastOfMonth h]

theorem ofText_of_labelledBy {d : Date} {text : String} (h : d.LabelledBy text)
    (hlast : ¬ d.InLastMonth) : Span.ofText text = .ok ⟨d.firstOfMonth, d.lastOfMonth⟩ := by
  have hpieces := pieces_intercalate (List.cons_ne_nil text [])
    (List.forall_mem_singleton.2 h.colon_notMem)
  rw [List.map_singleton, List.intercalate_singleton] at hpieces
  unfold Span.ofText
  rw [hpieces]
  dsimp only
  rw [monthStart_of_labelledBy h]
  exact bind_eq_ok.2 ⟨_, rfl, bind_eq_ok.2 ⟨_, monthEnd_of_not_inLastMonth ⟨rfl, rfl⟩ hlast, rfl⟩⟩

theorem ofText_of_labelledBy_both {d e : Date} {text text' : String} (h : d.LabelledBy text)
    (h' : e.LabelledBy text') (hlast : ¬ e.InLastMonth) :
    Span.ofText (text ++ ":" ++ text') =
      if d.monthIndex ≤ e.monthIndex then .ok ⟨d.firstOfMonth, e.lastOfMonth⟩
      else .error (.reversed (text ++ ":" ++ text')) := by
  have hpieces := @pieces_intercalate [text, text'] (List.cons_ne_nil _ _)
    (by simp [h.colon_notMem, h'.colon_notMem])
  have hjoined : [':'].intercalate ([text, text'].map String.toList) =
      (text ++ ":" ++ text').toList := by
    simp [List.intercalate]
  rw [hjoined] at hpieces
  unfold Span.ofText
  rw [hpieces]
  dsimp only
  rw [monthStart_of_labelledBy h, monthStart_of_labelledBy h']
  have hend : monthEnd e.firstOfMonth = .ok e.lastOfMonth :=
    monthEnd_of_not_inLastMonth ⟨rfl, rfl⟩ hlast
  simp only [bind, Except.bind, hend, lastOfMonth_lt_iff]
  by_cases horder : d.monthIndex ≤ e.monthIndex
  · rw [if_pos horder, if_neg (Int.not_lt.2 horder)]
    rfl
  · rw [if_neg horder, if_pos (Int.not_le.1 horder)]
    rfl

/-- **Labels are read as the months that they label.** A label, with or without blanks around it, is
read as its month, from the first day to the last. Two labels with a colon between them are read as
the months from the first one to the second, and refused if the second is the earlier one. The one
month that cannot be the last of a span is the last of the calendar. -/
theorem ofText_labels :
    (∀ (d : Date) (text : String), d.LabelledBy text → ¬ d.InLastMonth →
      Span.ofText text = .ok ⟨d.firstOfMonth, d.lastOfMonth⟩) ∧
    ∀ (d e : Date) (text text' : String), d.LabelledBy text → e.LabelledBy text' →
      ¬ e.InLastMonth →
      Span.ofText (text ++ ":" ++ text') =
        if d.monthIndex ≤ e.monthIndex then .ok ⟨d.firstOfMonth, e.lastOfMonth⟩
        else .error (.reversed (text ++ ":" ++ text')) :=
  ⟨fun _ _ h hlast => ofText_of_labelledBy h hlast,
    fun _ _ _ _ h h' hlast => ofText_of_labelledBy_both h h' hlast⟩

/-- A year before year 0 and one of five digits. -/
theorem ofText_labels_far :
    ∃ d e : Date, d.monthLabel = "-0004-02" ∧ e.monthLabel = "+12024-11" ∧
      d.LabelledBy "\t-0004-02 " ∧ e.LabelledBy "+12024-11" ∧ ¬ d.InLastMonth ∧ ¬ e.InLastMonth ∧
      Span.ofText "\t-0004-02 " = .ok ⟨d.firstOfMonth, d.lastOfMonth⟩ ∧
      d.lastOfMonth.text = "-0004-02-29" ∧
      Span.ofText "\t-0004-02 :+12024-11" = .ok ⟨d.firstOfMonth, e.lastOfMonth⟩ ∧
      Span.ofText "+12024-11:\t-0004-02 " = .error (.reversed "+12024-11:\t-0004-02 ") := by
  let d : Date := ⟨-4, 2, 17, by decide⟩
  let e : Date := ⟨12024, 11, 30, by decide⟩
  have hd : d.LabelledBy "\t-0004-02 " :=
    ⟨"\t", " ", List.all_eq_true.1 (by decide +kernel), List.all_eq_true.1 (by decide +kernel),
      by decide +kernel⟩
  have he : e.LabelledBy "+12024-11" :=
    ⟨"", "", List.forall_mem_nil _, List.forall_mem_nil _, by decide +kernel⟩
  have hlast : ¬ d.InLastMonth := by decide
  have hlast' : ¬ e.InLastMonth := by decide
  obtain ⟨hone, htwo⟩ := ofText_labels
  exact ⟨d, e, by decide, by decide, hd, he, hlast, hlast', hone d _ hd hlast, by decide,
    htwo d e _ _ hd he hlast', htwo e d _ _ he hd hlast⟩

end Span

end ProForma
