import Mathlib.Data.List.Chain
import Mathlib.Data.List.DropRight
import Mathlib.Tactic.Common
import ProForma.Text.Blank
import ProForma.Text.Slug

/-!
# Slugs

A slug is made of the maximal runs of letters and digits in a name. The same slug comes of trimming
the name and going through it once, writing a hyphen where a run has ended, and taking the last one
back. What carries the second way is that all that is written so far ends in a hyphen, or is
nothing, whenever a run begins.
-/

namespace ProForma.Text

variable {keep : Char → Bool} {cs : List Char} {words : List (List Char)}

/-! ### Runs -/

/-- A text with its maximal runs of kept characters, in order. Other characters are skipped, and a
run ends where the text ends or another character follows. -/
inductive Parted (keep : Char → Bool) : List Char → List (List Char) → Prop
  | nil : Parted keep [] []
  | skip {c cs words} (hc : keep c = false) (hrest : Parted keep cs words) :
      Parted keep (c :: cs) words
  | run {run rest words} (hne : run ≠ []) (hkept : ∀ c ∈ run, keep c = true)
      (hends : ∀ c ∈ rest.head?, keep c = false) (hrest : Parted keep rest words) :
      Parted keep (run ++ rest) (run :: words)

theorem runs_cons_of_not {c : Char} (hc : keep c = false) :
    runs keep (c :: cs) = runs keep cs := by
  rw [runs.eq_def keep (c :: cs)]
  simp [hc]

/-- A run ends where no kept character follows. -/
theorem runs_cons_of_ends {c : Char} (hc : keep c = true)
    (hends : ∀ d ∈ cs.head?, keep d = false) : runs keep (c :: cs) = [c] :: runs keep cs := by
  rw [runs.eq_def keep (c :: cs)]
  cases cs with
  | nil => simp [hc, runs]
  | cons d cs =>
      have hd : keep d = false := hends d rfl
      cases hruns : runs keep (d :: cs) <;> simp [hc, hd, hruns]

theorem runs_cons_cons {c d : Char} {run : List Char} (hc : keep c = true) (hd : keep d = true)
    (h : runs keep (d :: cs) = run :: words) :
    runs keep (c :: d :: cs) = (c :: run) :: words := by
  rw [runs.eq_def keep (c :: d :: cs)]
  simp [hc, hd, h]

theorem runs_append {run rest : List Char} (hne : run ≠ []) (hkept : ∀ c ∈ run, keep c = true)
    (hends : ∀ c ∈ rest.head?, keep c = false) :
    runs keep (run ++ rest) = run :: runs keep rest := by
  induction run with
  | nil => exact absurd rfl hne
  | cons c run ih =>
      obtain ⟨hc, hkept⟩ := List.forall_mem_cons.1 hkept
      cases run with
      | nil => exact runs_cons_of_ends hc hends
      | cons d run =>
          have hd : keep d = true := hkept d List.mem_cons_self
          exact runs_cons_cons hc hd (ih (List.cons_ne_nil d run) hkept)

theorem Parted.runs_eq (h : Parted keep cs words) : runs keep cs = words := by
  induction h with
  | nil => rfl
  | skip hc _ ih => rw [runs_cons_of_not hc, ih]
  | run hne hkept hends _ ih => rw [runs_append hne hkept hends, ih]

/-- A kept character in front begins a run, or the first run. -/
theorem Parted.exists_cons {c : Char} (hc : keep c = true) (h : Parted keep cs words) :
    ∃ words, Parted keep (c :: cs) words := by
  have hone : ∀ d ∈ [c], keep d = true := fun d hd => List.mem_singleton.1 hd ▸ hc
  have hbegun : (∀ d ∈ cs.head?, keep d = false) → Parted keep ([c] ++ cs) ([c] :: words) :=
    fun hends => .run (List.cons_ne_nil c []) hone hends h
  cases h with
  | nil => exact ⟨_, hbegun nofun⟩
  | skip hd _ =>
      refine ⟨_, hbegun fun e he => ?_⟩
      cases he
      exact hd
  | @run run rest words hne hkept hends hrest =>
      have hlonger : Parted keep (c :: run ++ rest) ((c :: run) :: words) :=
        .run (List.cons_ne_nil c run) (List.forall_mem_cons.2 ⟨hc, hkept⟩) hends hrest
      exact ⟨_, hlonger⟩

/-- A text has its runs, and no other ones. -/
theorem parted_iff : Parted keep cs words ↔ runs keep cs = words := by
  have hexists : ∃ words, Parted keep cs words := by
    induction cs with
    | nil => exact ⟨[], .nil⟩
    | cons c cs ih =>
        obtain ⟨words, h⟩ := ih
        cases hc : keep c with
        | false => exact ⟨words, .skip hc h⟩
        | true => exact h.exists_cons hc
  refine ⟨Parted.runs_eq, ?_⟩
  rintro rfl
  obtain ⟨words, h⟩ := hexists
  rwa [h.runs_eq]

theorem Parted.kept (h : Parted keep cs words) :
    ∀ word ∈ words, word ≠ [] ∧ ∀ c ∈ word, keep c = true := by
  induction h with
  | nil => nofun
  | skip _ _ ih => exact ih
  | run hne hkept _ _ ih => exact List.forall_mem_cons.2 ⟨⟨hne, hkept⟩, ih⟩

theorem Parted.eq_nil_iff (h : Parted keep cs words) : words = [] ↔ ∀ c ∈ cs, keep c = false := by
  induction h with
  | nil => exact ⟨fun _ => nofun, fun _ => rfl⟩
  | skip hc _ ih => rw [ih, List.forall_mem_cons, and_iff_right hc]
  | @run run rest words hne hkept _ _ _ =>
      refine ⟨nofun, fun hall => ?_⟩
      obtain ⟨c, hc⟩ := List.exists_mem_of_ne_nil run hne
      have hnot := hall c (List.mem_append_left _ hc)
      rw [hkept c hc] at hnot
      cases hnot

/-! ### Gaps -/

theorem Parted.append_gap (h : Parted keep cs words) {gap : List Char}
    (hgap : ∀ c ∈ gap, keep c = false) : Parted keep (cs ++ gap) words := by
  induction h with
  | nil => exact parted_iff.2 ((parted_iff.2 rfl).eq_nil_iff.2 hgap)
  | skip hc _ ih => exact .skip hc ih
  | @run run rest words hne hkept hends _ ih =>
      rw [List.append_assoc]
      refine .run hne hkept (fun c hc => ?_) ih
      cases rest with
      | nil => exact hgap c (List.mem_of_mem_head? hc)
      | cons d rest => exact hends c hc

theorem Parted.gap_append (h : Parted keep cs words) {gap : List Char}
    (hgap : ∀ c ∈ gap, keep c = false) : Parted keep (gap ++ cs) words := by
  induction gap with
  | nil => exact h
  | cons c gap ih =>
      obtain ⟨hc, hgap⟩ := List.forall_mem_cons.1 hgap
      exact .skip hc (ih hgap)

/-- Blanks at the ends of a text are in none of its runs. -/
theorem runs_trimChars (hblank : ∀ c, isBlank c = true → keep c = false) (cs : List Char) :
    runs keep (trimChars cs) = runs keep cs := by
  obtain ⟨lead, trail, hcs, hlead, htrail⟩ := exists_blanks_around cs
  have htrimmed : Parted keep (trimChars cs) (runs keep (trimChars cs)) := parted_iff.2 rfl
  have hwhole := (htrimmed.append_gap fun c hc => hblank c (htrail c hc)).gap_append
    fun c hc => hblank c (hlead c hc)
  rw [← hcs] at hwhole
  exact hwhole.runs_eq.symm

/-- Words between separators are found again. -/
theorem parted_intercalate {sep : Char} (hsep : keep sep = false)
    (hwords : ∀ word ∈ words, word ≠ [] ∧ ∀ c ∈ word, keep c = true) :
    Parted keep ([sep].intercalate words) words := by
  induction words with
  | nil => exact .nil
  | cons word words ih =>
      obtain ⟨⟨hne, hkept⟩, hwords⟩ := List.forall_mem_cons.1 hwords
      cases words with
      | nil =>
          have hlast : Parted keep (word ++ []) [word] :=
            .run hne hkept (fun c hc => by cases hc) .nil
          rw [List.append_nil] at hlast
          rwa [List.intercalate_singleton]
      | cons next words =>
          rw [List.intercalate_cons_cons, List.append_assoc, List.singleton_append]
          refine .run hne hkept (fun c hc => ?_) (.skip hsep (ih hwords))
          cases hc
          exact hsep

/-! ### The characters of a slug -/

/-- A small letter or a digit. -/
def IsPlain (c : Char) : Prop :=
  ('a' ≤ c ∧ c ≤ 'z') ∨ ('0' ≤ c ∧ c ≤ '9')

theorem isPlain_iff {c : Char} :
    IsPlain c ↔ (97 ≤ c.toNat ∧ c.toNat ≤ 122) ∨ (48 ≤ c.toNat ∧ c.toNat ≤ 57) := by
  simp only [IsPlain, Char.le_def, UInt32.le_iff_toNat_le]
  rfl

theorem toNat_toLower (c : Char) :
    c.toLower.toNat = if 65 ≤ c.toNat ∧ c.toNat ≤ 90 then c.toNat + 32 else c.toNat := by
  unfold Char.toLower
  by_cases h : 65 ≤ c.toNat ∧ c.toNat ≤ 90
  · have hcapital : c.val ≥ 'A'.val ∧ c.val ≤ 'Z'.val := h
    rw [dif_pos hcapital, if_pos h]
    change (c.val.toNat + 32) % 2 ^ 32 = c.val.toNat + 32
    exact Nat.mod_eq_of_lt (by have hle : c.val.toNat ≤ 90 := h.2; omega)
  · have hother : ¬(c.val ≥ 'A'.val ∧ c.val ≤ 'Z'.val) := h
    rw [dif_neg hother, if_neg h]

theorem isPlain_toLower {c : Char} (hc : c.isAlphanum = true) : IsPlain c.toLower := by
  rw [isAlphanum_iff] at hc
  rw [isPlain_iff, toNat_toLower]
  split <;> omega

theorem IsPlain.isAlphanum {c : Char} (h : IsPlain c) : c.isAlphanum = true := by
  rw [isPlain_iff] at h
  rw [isAlphanum_iff]
  omega

theorem IsPlain.toLower_eq {c : Char} (h : IsPlain c) : c.toLower = c := by
  rw [isPlain_iff] at h
  refine Char.toNat_inj.1 ?_
  rw [toNat_toLower, if_neg (by omega)]

theorem not_isPlain_hyphen : ¬ IsPlain '-' := by
  rw [isPlain_iff]
  decide

/-- The words of a slug. -/
def slugWords (name : String) : List (List Char) :=
  (runs Char.isAlphanum name.toList).map (List.map Char.toLower)

theorem toList_slug (name : String) :
    (slug name).toList = ['-'].intercalate (slugWords name) := by
  rw [slug, String.toList_intercalate, List.map_map, slugWords]
  congr 1
  refine List.map_congr_left fun run _ => ?_
  exact String.toList_ofList

theorem slugWords_plain (name : String) :
    ∀ word ∈ slugWords name, word ≠ [] ∧ ∀ c ∈ word, IsPlain c := by
  intro word hword
  obtain ⟨run, hrun, rfl⟩ := List.mem_map.1 hword
  have hparted : Parted Char.isAlphanum name.toList (runs Char.isAlphanum name.toList) :=
    parted_iff.2 rfl
  obtain ⟨hne, hkept⟩ := hparted.kept run hrun
  refine ⟨mt List.map_eq_nil_iff.1 hne, fun c hc => ?_⟩
  obtain ⟨d, hd, rfl⟩ := List.mem_map.1 hc
  exact isPlain_toLower (hkept d hd)

/-- The words of a slug are read from it again. -/
theorem slugWords_slug (name : String) : slugWords (slug name) = slugWords name := by
  have hwords := slugWords_plain name
  have hparted : Parted Char.isAlphanum (slug name).toList (slugWords name) := by
    rw [toList_slug]
    refine parted_intercalate (by decide) fun word hword => ?_
    exact (hwords word hword).imp_right fun hplain c hc => (hplain c hc).isAlphanum
  have hlower : ∀ word ∈ slugWords name, word.map Char.toLower = id word := by
    intro word hword
    have hsame : ∀ c ∈ word, c.toLower = id c := fun c hc => ((hwords word hword).2 c hc).toLower_eq
    rw [List.map_congr_left hsame, List.map_id, id]
  rw [slugWords, hparted.runs_eq, List.map_congr_left hlower, List.map_id]

/-! ### The hyphens of a slug -/

/-- Small letters, digits and hyphens; the hyphens stand one by one, and not at the ends. -/
structure IsSlug (cs : List Char) : Prop where
  chars : ∀ c ∈ cs, IsPlain c ∨ c = '-'
  head : cs.head? ≠ some '-'
  last : cs.getLast? ≠ some '-'
  single : cs.IsChain fun c d => ¬(c = '-' ∧ d = '-')

section Join

variable {word : List Char} (hplain : ∀ c ∈ word, IsPlain c)

include hplain

theorem isSlug_of_plain : IsSlug word := by
  have hnone : '-' ∉ word := fun hmem => not_isPlain_hyphen (hplain _ hmem)
  refine ⟨fun c hc => .inl (hplain c hc), fun hhead => hnone (List.mem_of_mem_head? hhead),
    fun hlast => hnone (List.mem_of_getLast? hlast), ?_⟩
  refine (List.pairwise_of_forall_mem_list fun c hc d _ hboth => ?_).isChain
  exact hnone (hboth.1 ▸ hc)

theorem IsSlug.join (hne : word ≠ []) (h : IsSlug cs) (hcs : cs ≠ []) :
    IsSlug (word ++ '-' :: cs) where
  chars c hc := by
    rcases List.mem_append.1 hc with hc | hc
    · exact .inl (hplain c hc)
    · rcases List.mem_cons.1 hc with rfl | hc
      · exact .inr rfl
      · exact h.chars c hc
  head := by
    rw [List.head?_append_of_ne_nil _ hne]
    exact (isSlug_of_plain hplain).head
  last := by
    rw [List.getLast?_append_of_ne_nil _ (List.cons_ne_nil _ _), List.getLast?_cons_of_ne_nil hcs]
    exact h.last
  single := by
    refine List.isChain_append.2 ⟨(isSlug_of_plain hplain).single, ?_, fun c hc _ _ hboth => ?_⟩
    · refine List.isChain_cons.2 ⟨fun c hc hboth => h.head ?_, h.single⟩
      rw [← hboth.2]
      exact hc
    · exact not_isPlain_hyphen (hboth.1 ▸ hplain c (List.mem_of_getLast? hc))

end Join

theorem intercalate_ne_nil {sep : List Char} (hwords : ∀ word ∈ words, word ≠ [])
    (hne : words ≠ []) : sep.intercalate words ≠ [] := by
  rcases words with _ | ⟨word, _ | ⟨next, words⟩⟩
  · exact absurd rfl hne
  · rw [List.intercalate_singleton]
    exact hwords word List.mem_cons_self
  · rw [List.intercalate_cons_cons, List.append_assoc]
    exact List.append_ne_nil_of_left_ne_nil (hwords word List.mem_cons_self) _

theorem isSlug_intercalate (hwords : ∀ word ∈ words, word ≠ [] ∧ ∀ c ∈ word, IsPlain c) :
    IsSlug (['-'].intercalate words) := by
  induction words with
  | nil => exact isSlug_of_plain nofun
  | cons word words ih =>
      obtain ⟨⟨hne, hplain⟩, hrest⟩ := List.forall_mem_cons.1 hwords
      cases words with
      | nil =>
          rw [List.intercalate_singleton]
          exact isSlug_of_plain hplain
      | cons next words =>
          have hnext : ['-'].intercalate (next :: words) ≠ [] :=
            intercalate_ne_nil (fun word hword => (hrest word hword).1) (List.cons_ne_nil _ _)
          rw [List.intercalate_cons_cons, List.append_assoc, List.singleton_append]
          exact (ih hrest).join hplain hne hnext

theorem isSlug_slug (name : String) : IsSlug (slug name).toList := by
  rw [toList_slug]
  exact isSlug_intercalate (slugWords_plain name)

theorem slug_eq_empty_iff (name : String) :
    slug name = "" ↔ ∀ c ∈ name.toList, c.isAlphanum = false := by
  have hruns : slugWords name = [] ↔ ∀ c ∈ name.toList, c.isAlphanum = false :=
    List.map_eq_nil_iff.trans (parted_iff.2 rfl).eq_nil_iff
  rw [← hruns, ← String.toList_inj, toList_slug]
  constructor
  · intro hempty
    by_contra hne
    exact intercalate_ne_nil (fun word hword => (slugWords_plain name word hword).1) hne hempty
  · intro hnone
    rw [hnone]
    rfl

/-! ### Reading a name once -/

/-- What is written for one more character: a letter or a digit, or a hyphen unless there is one at
the end or nothing yet. -/
def spell (written : List Char) (c : Char) : List Char :=
  if c.isAlphanum then written ++ [c.toLower]
  else if written = [] ∨ written.getLast? = some '-' then written
  else written ++ ['-']

/-- The slug that is written down while a name is read, without the hyphens at its end. -/
def spelled (name : String) : String :=
  String.ofList (((trim name).toList.foldl spell []).rdropWhile (· = '-'))

theorem foldl_spell_run {run : List Char} (hkept : ∀ c ∈ run, c.isAlphanum = true)
    (written : List Char) : run.foldl spell written = written ++ run.map Char.toLower := by
  induction run generalizing written with
  | nil => exact (List.append_nil written).symm
  | cons c run ih =>
      obtain ⟨hc, hkept⟩ := List.forall_mem_cons.1 hkept
      rw [List.foldl_cons, ih hkept, spell, if_pos hc, List.append_assoc, List.map_cons,
        List.singleton_append]

/-- After a run there is no hyphen yet. -/
theorem spell_after_run {run : List Char} (hne : run ≠ [])
    (hkept : ∀ c ∈ run, c.isAlphanum = true) (written : List Char) {d : Char}
    (hd : d.isAlphanum = false) :
    spell (written ++ run.map Char.toLower) d = written ++ run.map Char.toLower ++ ['-'] := by
  have hlower : run.map Char.toLower ≠ [] := mt List.map_eq_nil_iff.1 hne
  have hopen : ¬(written ++ run.map Char.toLower = [] ∨
      (written ++ run.map Char.toLower).getLast? = some '-') := by
    rw [List.getLast?_append_of_ne_nil _ hlower]
    rintro (hnil | hlast)
    · exact hlower (List.append_eq_nil_iff.1 hnil).2
    · obtain ⟨c, hc, hhyphen⟩ := List.mem_map.1 (List.mem_of_getLast? hlast)
      exact not_isPlain_hyphen (hhyphen ▸ isPlain_toLower (hkept c hc))
  rw [spell, if_neg (by simp [hd]), if_neg hopen]

/-- Where a hyphen or nothing stands at the end of what is written, reading on writes the words, and
may leave one more hyphen after the last of them. -/
theorem Parted.foldl_spell (h : Parted Char.isAlphanum cs words) {written : List Char}
    (hwritten : written = [] ∨ written.getLast? = some '-') :
    ∃ tail, (tail = [] ∨ tail = ['-']) ∧ (words = [] → tail = []) ∧
      cs.foldl spell written =
        written ++ ['-'].intercalate (words.map (List.map Char.toLower)) ++ tail := by
  induction h generalizing written with
  | nil => exact ⟨[], .inl rfl, fun _ => rfl, by simp⟩
  | skip hc _ ih =>
      rw [List.foldl_cons, spell, if_neg (by simp [hc]), if_pos hwritten]
      exact ih hwritten
  | @run run rest words hne hkept hends hrest ih =>
      rw [List.foldl_append, foldl_spell_run hkept, List.map_cons]
      cases rest with
      | nil =>
          obtain rfl : words = [] := hrest.eq_nil_iff.2 nofun
          exact ⟨[], .inl rfl, nofun, by simp⟩
      | cons d rest =>
          have hd : d.isAlphanum = false := hends d rfl
          have hended := spell_after_run hne hkept written hd
          -- The hyphen that is written now is the one that the rest would begin with.
          have hsettled : (written ++ run.map Char.toLower ++ ['-']).getLast? = some '-' :=
            List.getLast?_concat
          obtain ⟨tail, htail, hnone, hfold⟩ := ih (.inr hsettled)
          rw [List.foldl_cons, spell, if_neg (by simp [hd]), if_pos (.inr hsettled)] at hfold
          rw [List.foldl_cons, hended, hfold]
          cases words with
          | nil =>
              rw [hnone rfl]
              exact ⟨['-'], .inr rfl, nofun, by simp⟩
          | cons word words =>
              refine ⟨tail, htail, nofun, ?_⟩
              rw [List.map_cons, List.intercalate_cons_cons]
              simp only [List.append_assoc]

/-- Reading a name once comes to the same as joining its runs. -/
theorem spelled_eq_slug (name : String) : spelled name = slug name := by
  have hblank : ∀ c, isBlank c = true → c.isAlphanum = false := by
    intro c hc
    by_contra hkept
    rw [isBlank_of_isAlphanum (eq_true_of_ne_false hkept)] at hc
    cases hc
  have hparted : Parted Char.isAlphanum (trim name).toList (runs Char.isAlphanum name.toList) := by
    rw [parted_iff, trim, String.toList_ofList, runs_trimChars hblank]
  obtain ⟨tail, htail, -, hfold⟩ := hparted.foldl_spell (.inl rfl)
  rw [List.nil_append] at hfold
  change _ = ['-'].intercalate (slugWords name) ++ tail at hfold
  rw [← toList_slug] at hfold
  have hends : (slug name).toList.rdropWhile (· = '-') = (slug name).toList := by
    refine List.rdropWhile_eq_self_iff.2 fun hne hlast => (isSlug_slug name).last ?_
    rw [List.getLast?_eq_some_getLast hne, of_decide_eq_true hlast]
  rw [← String.toList_inj, spelled, String.toList_ofList, hfold]
  rcases htail with rfl | rfl
  · rw [List.append_nil, hends]
  · rw [List.rdropWhile_concat_pos (· = '-') _ _ (decide_eq_true rfl), hends]

/-- **Slugs.** A name has one list of maximal runs of letters and digits, and its slug is these runs
in small letters, with a hyphen between any two of them; trimming the name and reading it once
spells the same. So there is nothing in the slug if there is no letter and no digit in the name, and
otherwise small letters, digits and hyphens, with no hyphen at either end and never two in a row;
and a slug is its own slug. -/
theorem slug_joins_runs (name : String) :
    ∃ words, (∀ other, Parted Char.isAlphanum name.toList other ↔ other = words) ∧
      (slug name).toList = ['-'].intercalate (words.map (List.map Char.toLower)) ∧
      spelled name = slug name ∧
      (slug name = "" ↔ ∀ c ∈ name.toList, c.isAlphanum = false) ∧
      (∀ c ∈ (slug name).toList, ('a' ≤ c ∧ c ≤ 'z') ∨ ('0' ≤ c ∧ c ≤ '9') ∨ c = '-') ∧
      (slug name).toList.head? ≠ some '-' ∧
      (slug name).toList.getLast? ≠ some '-' ∧
      ¬ ['-', '-'] <:+: (slug name).toList ∧
      slug (slug name) = slug name := by
  have hslug := isSlug_slug name
  refine ⟨runs Char.isAlphanum name.toList, fun other => ?runs, toList_slug name,
    spelled_eq_slug name, slug_eq_empty_iff name, fun c hc => ?chars, hslug.head, hslug.last,
    fun hdouble => ?double, ?again⟩
  case runs => rw [parted_iff, eq_comm]
  case chars => exact or_assoc.1 (hslug.chars c hc)
  case double =>
    obtain ⟨before, after, hsplit⟩ := hdouble
    have hsingle := hslug.single
    rw [← hsplit, List.append_assoc] at hsingle
    exact (List.isChain_append_cons_cons.1 hsingle).2.1 ⟨rfl, rfl⟩
  case again => rw [← String.toList_inj, toList_slug, toList_slug, slugWords_slug]

/-- Blanks, a dash and a letter beyond `z` all part words. -/
example : slug " Écart (Net) — Coûts 2024  " = "cart-net-co-ts-2024" := by cbv

end ProForma.Text
