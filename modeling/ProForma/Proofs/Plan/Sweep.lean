import ProForma.Proofs.Plan.Fill
import ProForma.Proofs.Plan.Line

/-!
# One sweep is enough

What the formula of a summary line reads comes before the line in a sweep: lines of the same period
in the order of computation, and earlier periods. So nothing that a sweep does after a line touches
what the line has read or written, and at the end of the sweep all of its lines are settled. Further
sweeps write nothing but what is there.
-/

namespace ProForma

/-- The model with another bound on the number of sweeps. -/
def Model.withPasses {α : Type} (m : Model α) (passes : Nat) : Model α :=
  { m with settings := { m.settings with passes } }

namespace Plan

open Chart Formula Ledger

variable {α : Type} [Amount α] {plan : Plan α} {ledger ledger' : Ledger α} {line : Line α}
  {periods : List (Period × Nat)}

/-! ### The order of a sweep -/

/-- One line comes before another: in an earlier period, or earlier in the order of computation. -/
def Precedes (plan : Plan α) (line later : Line α) : Prop :=
  line.position < later.position ∨
    line.position = later.position ∧
      rank plan.order line.account.id < rank plan.order later.account.id

/-- The line is an account of the chart in a period of the timeline. -/
structure Stands (plan : Plan α) (line : Line α) : Prop where
  period : plan.timeline[line.position]? = some line.period
  account : plan.chart.account? line.account.id = some line.account

theorem Reviewed.key_ne (hplan : plan.Reviewed) {later : Line α} (hline : plan.Stands line)
    (hlater : plan.Stands later) (h : plan.Precedes line later) : line.key ≠ later.key := by
  intro hkey
  obtain ⟨hid, hperiod⟩ : line.account.id = later.account.id ∧
      line.period.id = later.period.id := by
    simpa [Line.key] using hkey
  rcases h with hlt | ⟨-, hlt⟩
  · exact hplan.id_ne (Nat.ne_of_lt hlt) hline.period hlater.period hperiod
  · rw [hid] at hlt
    exact Nat.lt_irrefl _ hlt

/-- An account and a period of a reviewed model have one line. -/
theorem Reviewed.line_eq (hplan : plan.Reviewed) {line' : Line α} (h : plan.Stands line)
    (h' : plan.Stands line') (hkey : line.key = line'.key) : line = line' := by
  obtain ⟨period, position, a⟩ := line
  obtain ⟨period', position', b⟩ := line'
  obtain ⟨hid, hperiod⟩ : a.id = b.id ∧ period.id = period'.id := by simpa [Line.key] using hkey
  obtain rfl : position = position' := by
    by_contra hne
    exact hplan.id_ne hne h.period h'.period hperiod
  obtain rfl : period = period' := Option.some.inj (h.period.symm.trans h'.period)
  obtain rfl : a = b := by
    have haccount : plan.chart.account? a.id = some a := h.account
    rw [hid, h'.account] at haccount
    exact (Option.some.inj haccount).symm
  rfl

/-- A line reads neither its own cell nor those of later lines. -/
theorem Reviewed.ignores (hplan : plan.Reviewed) {later : Line α} (hline : plan.Stands line)
    (hlater : plan.Stands later) (horder : line = later ∨ plan.Precedes line later) :
    plan.Ignores line later.key := by
  intro f hf r hr p hp hkey
  obtain ⟨hid, hperiod⟩ : later.account.id = r.1 ∧ later.period.id = p.id := by
    simpa [Line.key] using hkey
  obtain ⟨n, hn, hp⟩ := periodAt?_eq_some_iff.1 hp
  obtain rfl : n = later.position := by
    by_contra hne
    exact hplan.id_ne hne hp hlater.period hperiod.symm
  have hle : line.position ≤ later.position ∧
      (line.position = later.position →
        rank plan.order line.account.id ≤ rank plan.order later.account.id) := by
    rcases horder with rfl | hlt | ⟨heq, hlt⟩
    · exact ⟨Nat.le_refl _, fun _ => Nat.le_refl _⟩
    · exact ⟨Nat.le_of_lt hlt, fun heq => by omega⟩
    · exact ⟨Nat.le_of_eq heq, fun _ => Nat.le_of_lt hlt⟩
  have hlag : r.2 = 0 := by omega
  have hnow : (later.account.id, 0) ∈ f.refs := by
    rw [hid, ← hlag]
    exact hr
  have hlt := rank_lt_of_mem_refs hplan.order hline.account hf hnow
  have hrank := hle.2 (by omega)
  omega

/-- The lines of a sweep, in the order in which it comes to them. -/
def lines (plan : Plan α) (periods : List (Period × Nat)) : List (Line α) :=
  periods.flatMap fun entry =>
    plan.derivedLines.map fun a => { period := entry.1, position := entry.2, account := a }

theorem rank_lt_of_pairwise (hplan : plan.Reviewed) :
    plan.order.Pairwise fun id later => rank plan.order id < rank plan.order later := by
  have hnodup := nodup_order hplan.order
  rw [List.pairwise_iff_getElem]
  intro i j hi hj hij
  unfold rank
  rw [if_pos (List.getElem_mem hi), if_pos (List.getElem_mem hj), hnodup.idxOf_getElem,
    hnodup.idxOf_getElem]
  omega

theorem pairwise_derivedLines (hplan : plan.Reviewed) :
    plan.derivedLines.Pairwise fun a later => rank plan.order a.id < rank plan.order later.id := by
  unfold derivedLines
  refine List.Pairwise.filter _ (List.pairwise_filterMap.2 ?_)
  refine (rank_lt_of_pairwise hplan).imp fun {id later} hlt a ha b hb => ?_
  rw [(mem_of_account? ha).2, (mem_of_account? hb).2]
  exact hlt

omit [Amount α] in
theorem mem_lines : line ∈ plan.lines periods ↔
    (line.period, line.position) ∈ periods ∧ line.account ∈ plan.derivedLines := by
  unfold lines
  simp only [List.mem_flatMap, List.mem_map]
  constructor
  · rintro ⟨entry, hentry, a, ha, rfl⟩
    exact ⟨hentry, ha⟩
  · rintro ⟨hentry, ha⟩
    exact ⟨_, hentry, _, ha, rfl⟩

theorem mem_derivedLines (hplan : plan.Reviewed) {a : Account α} :
    a ∈ plan.derivedLines ↔ a ∈ plan.chart.accounts ∧ a.isDerived = true := by
  constructor
  · intro ha
    have haccount := account?_of_mem_derivedLines ha
    exact ⟨(mem_of_account? haccount).1, (List.mem_filter.1 ha).2⟩
  · rintro ⟨ha, hderived⟩
    have hid : a.id ∈ plan.order := (mem_order hplan.order).2 ⟨a, ha, rfl⟩
    have haccount : a ∈ plan.order.filterMap plan.chart.account? :=
      List.mem_filterMap.2 ⟨a.id, hid, hplan.account a ha⟩
    exact List.mem_filter.2 ⟨haccount, hderived⟩

theorem mem_lines_zipIdx (hplan : plan.Reviewed) :
    line ∈ plan.lines plan.timeline.zipIdx ↔
      plan.timeline[line.position]? = some line.period ∧
        line.account ∈ plan.chart.accounts ∧ line.account.isDerived = true := by
  rw [mem_lines, mem_derivedLines hplan, List.mem_zipIdx_iff_getElem?]

omit [Amount α] in
theorem stands_of_mem_lines (hperiods : plan.Places periods) (h : line ∈ plan.lines periods) :
    plan.Stands line := by
  obtain ⟨hentry, ha⟩ := mem_lines.1 h
  exact ⟨hperiods.timeline _ hentry, account?_of_mem_derivedLines ha⟩

theorem pairwise_lines (hplan : plan.Reviewed) (hperiods : plan.Places periods) :
    (plan.lines periods).Pairwise plan.Precedes := by
  unfold lines
  rw [List.pairwise_flatMap]
  constructor
  · intro entry _
    rw [List.pairwise_map]
    exact (pairwise_derivedLines hplan).imp fun hlt => .inr ⟨rfl, hlt⟩
  · refine (List.pairwise_map.1 hperiods.increasing).imp fun {entry later} hlt x hx y hy => ?_
    obtain ⟨a, -, rfl⟩ := List.mem_map.1 hx
    obtain ⟨b, -, rfl⟩ := List.mem_map.1 hy
    exact .inl hlt

/-! ### Settling one line after another -/

theorem cell?_settleLines {xs : List (Line α)} (h : xs.foldlM plan.settleLine ledger = .ok ledger')
    {key : CellKey} (hkey : ∀ x ∈ xs, key ≠ x.key) : ledger'.cell? key = ledger.cell? key := by
  refine foldlM_preserves (P := fun next => next.cell? key = ledger.cell? key) rfl ?_ h
  intro before after x hx hkept hstep
  rw [cell?_settleLine hstep (hkey x hx), hkept]

theorem exists_line_of_changed {xs : List (Line α)}
    (h : xs.foldlM plan.settleLine ledger = .ok ledger') {key : CellKey}
    (hkey : ledger'.cell? key ≠ ledger.cell? key) : ∃ x ∈ xs, x.key = key := by
  by_contra! hnone
  exact hkey (cell?_settleLines h fun x hx hsame => hnone x hx hsame.symm)

/-- A line is gone over at some point. Until then its cell is what it was, and from then on nothing
happens to its cell and to what it reads. -/
theorem exists_settleLine (hplan : plan.Reviewed) {xs : List (Line α)}
    (hstands : ∀ x ∈ xs, plan.Stands x) (horder : xs.Pairwise plan.Precedes)
    (h : xs.foldlM plan.settleLine ledger = .ok ledger') {x : Line α} (hx : x ∈ xs) :
    ∃ before after, plan.settleLine before x = .ok after ∧
      before.cell? x.key = ledger.cell? x.key ∧ ledger'.cell? x.key = after.cell? x.key ∧
      ∀ key, ledger'.cell? key = after.cell? key ∨ plan.Ignores x key := by
  obtain ⟨earlier, later, rfl⟩ := List.append_of_mem hx
  rw [List.foldlM_append] at h
  obtain ⟨before, hbefore, h⟩ := bind_eq_ok.1 h
  rw [List.foldlM_cons] at h
  obtain ⟨after, hafter, h⟩ := bind_eq_ok.1 h
  obtain ⟨-, hlater, hearlier⟩ := List.pairwise_append.1 horder
  obtain ⟨hlater, -⟩ := List.pairwise_cons.1 hlater
  have hstand := hstands x hx
  have hstandsLater : ∀ y ∈ later, plan.Stands y := fun y hy =>
    hstands y (List.mem_append_right _ (List.mem_cons_of_mem _ hy))
  refine ⟨before, after, hafter, ?_, ?_, fun key => ?_⟩
  · refine cell?_settleLines hbefore fun y hy => Ne.symm ?_
    exact hplan.key_ne (hstands y (List.mem_append_left _ hy)) hstand
      (hearlier y hy x List.mem_cons_self)
  · exact cell?_settleLines h fun y hy => hplan.key_ne hstand (hstandsLater y hy) (hlater y hy)
  · by_cases hkey : ∃ y ∈ later, key = y.key
    · obtain ⟨y, hy, rfl⟩ := hkey
      exact .inr (hplan.ignores hstand (hstandsLater y hy) (.inr (hlater y hy)))
    · exact .inl (cell?_settleLines h fun y hy hsame => hkey ⟨y, hy, hsame⟩)

/-- When the last line has been settled, all of them are. -/
theorem settled_settleLines (hplan : plan.Reviewed) {xs : List (Line α)}
    (hstands : ∀ x ∈ xs, plan.Stands x) (horder : xs.Pairwise plan.Precedes)
    (h : xs.foldlM plan.settleLine ledger = .ok ledger') : ∀ x ∈ xs, plan.Settled ledger' x := by
  intro x hx
  obtain ⟨before, after, hstep, -, hself, hreads⟩ := exists_settleLine hplan hstands horder h hx
  have hstand := hstands x hx
  exact (settled_of_settleLine (hplan.ignores hstand hstand (.inl rfl)) hstep).congr hself hreads

/-- A line ends up with what settling it makes of the cell that it had, according to the ledger in
the end. -/
theorem cell?_of_settleLines (hplan : plan.Reviewed) {xs : List (Line α)}
    (hstands : ∀ x ∈ xs, plan.Stands x) (horder : xs.Pairwise plan.Precedes)
    (h : xs.foldlM plan.settleLine ledger = .ok ledger') {x : Line α} (hx : x ∈ xs) :
    ledger'.cell? x.key = settledCell (ledger.cell? x.key) (plan.asked ledger' x) := by
  obtain ⟨before, after, hstep, hbefore, hself, hreads⟩ :=
    exists_settleLine hplan hstands horder h hx
  have hstand := hstands x hx
  have hignores := hplan.ignores hstand hstand (.inl rfl)
  have hasked : plan.asked after x = plan.asked before x := by
    refine asked_congr fun key => ?_
    by_cases hkey : key = x.key
    · exact .inr (hkey ▸ hignores)
    · exact .inl (cell?_settleLine hstep hkey)
  rw [hself, cell?_settleLine_self hstep, hbefore, asked_congr hreads, hasked]

/-- What settling has changed are cells of lines, and they have the values of their formulas. -/
theorem exists_asked_of_settleLines (hplan : plan.Reviewed) {xs : List (Line α)}
    (hstands : ∀ x ∈ xs, plan.Stands x) (horder : xs.Pairwise plan.Precedes)
    (h : xs.foldlM plan.settleLine ledger = .ok ledger') {key : CellKey}
    (hkey : ledger'.cell? key ≠ ledger.cell? key) :
    ∃ x ∈ xs, x.key = key ∧ ∃ value, plan.asked ledger' x = .ok (some value) ∧
      ledger'.cell? key = some ⟨value, true⟩ := by
  obtain ⟨x, hx, rfl⟩ := exists_line_of_changed h hkey
  have hcell := cell?_of_settleLines hplan hstands horder h hx
  rw [hcell] at hkey ⊢
  obtain ⟨value, hvalue, hsettled⟩ := asked_of_settledCell_ne hkey
  exact ⟨x, hx, rfl, value, hvalue, hsettled⟩

theorem settleLines_eq_self {xs : List (Line α)} (h : ∀ x ∈ xs, plan.Settled ledger x) :
    xs.foldlM plan.settleLine ledger = .ok ledger :=
  foldlM_eq_self fun x hx => settleLine_eq_self_iff.2 (h x hx)

/-- Nothing has changed if each line was settled before or has in the end the cell that it had. -/
theorem settleLines_eq_start (hplan : plan.Reviewed) {xs : List (Line α)}
    (hstands : ∀ x ∈ xs, plan.Stands x) (horder : xs.Pairwise plan.Precedes)
    (h : xs.foldlM plan.settleLine ledger = .ok ledger')
    (hkept : ∀ x ∈ xs, plan.Settled ledger x ∨ ledger'.cell? x.key = ledger.cell? x.key) :
    ledger' = ledger := by
  -- The first line leaves everything as it was, either because it was settled or because its cell
  -- stays what it has been made to be; so the rest of the lines start from the same ledger.
  induction xs with
  | nil =>
      cases h
      rfl
  | cons x xs ih =>
      rw [List.foldlM_cons] at h
      obtain ⟨next, hnext, hrest⟩ := bind_eq_ok.1 h
      obtain ⟨hfirst, horder⟩ := List.pairwise_cons.1 horder
      have hxs : ∀ y ∈ xs, plan.Stands y := fun y hy => hstands y (List.mem_cons_of_mem _ hy)
      obtain rfl : next = ledger := by
        rcases hkept x List.mem_cons_self with hsettled | hcell
        · rw [settleLine_eq_self_iff.2 hsettled] at hnext
          exact (Except.ok.inj hnext).symm
        · ext key : 1
          by_cases hkey : key = x.key
          · have hself : ledger'.cell? x.key = next.cell? x.key :=
              cell?_settleLines hrest fun y hy =>
                hplan.key_ne (hstands x List.mem_cons_self) (hxs y hy) (hfirst y hy)
            rw [hkey, ← hself, hcell]
          · exact cell?_settleLine hnext hkey
      exact ih hxs horder hrest fun y hy => hkept y (List.mem_cons_of_mem _ hy)

/-! ### Sweeps -/

theorem run_settleCell (line : Line α) (state : Ledger α × Bool) (warnings : List (Warning α)) :
    ((plan.settleCell line.position line.period state line.account).run warnings).1.map Prod.fst =
      plan.settleLine state.1 line := by
  unfold settleCell settleLine asked
  dsimp only
  cases plan.target state.1 line.position line.period line.account with
  | error fault =>
      dsimp only
      split
      · rfl
      · rfl
  | ok target =>
      cases target with
      | none => rfl
      | some x =>
          change Except.ok (Prod.fst _) = _
          exact congrArg Except.ok (apply_ite Prod.fst _ _ _)

/-- A sweep settles its lines one after another. -/
theorem run_sweep (plan : Plan α) (periods : List (Period × Nat)) (ledger : Ledger α)
    (warnings : List (Warning α)) :
    ((plan.sweep periods ledger).run warnings).1.map Prod.fst =
      (plan.lines periods).foldlM plan.settleLine ledger := by
  have hsweep : plan.sweep periods ledger = (plan.lines periods).foldlM
      (fun state line => plan.settleCell line.position line.period state line.account)
      (ledger, false) := by
    unfold sweep lines
    rw [foldlM_flatMap]
    simp only [List.foldlM_map]
  rw [hsweep]
  exact run_foldlM_map (fun state line warnings => run_settleCell line state warnings) _ _ _

theorem settleIn_of_settled (h : ∀ x ∈ plan.lines periods, plan.Settled ledger x) (passes : Nat)
    (warnings : List (Warning α)) :
    ((plan.settleIn periods passes ledger).run warnings).1 = .ok ledger := by
  induction passes generalizing warnings with
  | zero => rfl
  | succ passes ih =>
      have hsweep := plan.run_sweep periods ledger warnings
      rw [settleLines_eq_self h] at hsweep
      unfold settleIn
      rw [run_bind]
      rcases hrun : (plan.sweep periods ledger).run warnings with
        ⟨fault | ⟨next, changed⟩, warnings'⟩ <;> rw [hrun] at hsweep
      · cases hsweep
      · obtain rfl : next = ledger := Except.ok.inj hsweep
        dsimp only
        split
        · exact ih warnings'
        · rfl

/-- However many sweeps are allowed, the first one decides. -/
theorem run_settleIn (hplan : plan.Reviewed) (hperiods : plan.Places periods) (passes : Nat)
    (ledger : Ledger α) (warnings : List (Warning α)) :
    ((plan.settleIn periods (passes + 1) ledger).run warnings).1 =
      (plan.lines periods).foldlM plan.settleLine ledger := by
  rw [← plan.run_sweep periods ledger warnings]
  unfold settleIn
  rw [run_bind]
  have hsweep := plan.run_sweep periods ledger warnings
  rcases hrun : (plan.sweep periods ledger).run warnings with
    ⟨fault | ⟨next, changed⟩, warnings'⟩ <;> rw [hrun] at hsweep
  · rfl
  · have hsettled : ∀ x ∈ plan.lines periods, plan.Settled next x :=
      settled_settleLines hplan (fun x hx => stands_of_mem_lines hperiods hx)
        (pairwise_lines hplan hperiods) hsweep.symm
    dsimp only
    split
    · exact settleIn_of_settled hsettled passes warnings'
    · rfl

/-! ### Any number of sweeps -/

def withPasses (plan : Plan α) (passes : Nat) : Plan α :=
  { plan with settings := { plan.settings with passes } }

theorem of_withPasses {m : Model α} (h : Plan.of m = .ok plan) (passes : Nat) :
    Plan.of (m.withPasses passes) = .ok (plan.withPasses passes) := by
  obtain ⟨horder, hchart, htimeline, hsettings⟩ := of_eq_ok_iff.1 h
  refine of_eq_ok_iff.2 ⟨horder, hchart, htimeline, ?_⟩
  unfold withPasses Model.withPasses
  rw [hsettings]

theorem Reviewed.withPasses (hplan : plan.Reviewed) (passes : Nat) :
    (plan.withPasses passes).Reviewed :=
  ⟨hplan.order, hplan.account, hplan.supplies, hplan.timeline⟩

theorem run_settle (hplan : plan.Reviewed) (hpasses : 1 ≤ plan.settings.passes)
    (ledger : Ledger α) (warnings : List (Warning α)) :
    ((plan.settle ledger).run warnings).1 =
      (plan.lines plan.timeline.zipIdx).foldlM plan.settleLine ledger := by
  unfold settle
  obtain ⟨passes, hpasses⟩ : ∃ n, plan.settings.passes = n + 1 :=
    ⟨plan.settings.passes - 1, by omega⟩
  rw [hpasses]
  exact run_settleIn hplan plan.places_zipIdx passes ledger warnings

theorem result_settle (hplan : plan.Reviewed) (hpasses : 1 ≤ plan.settings.passes)
    (ledger : Ledger α) :
    (plan.settle ledger).result =
      (plan.lines plan.timeline.zipIdx).foldlM plan.settleLine ledger :=
  run_settle hplan hpasses ledger []

theorem settled_settle (hplan : plan.Reviewed) (hpasses : 1 ≤ plan.settings.passes)
    {warnings : List (Warning α)} (h : ((plan.settle ledger).run warnings).1 = .ok ledger') :
    ∀ x ∈ plan.lines plan.timeline.zipIdx, plan.Settled ledger' x := by
  rw [run_settle hplan hpasses] at h
  have hplaces := plan.places_zipIdx
  exact settled_settleLines hplan (fun x hx => stands_of_mem_lines hplaces hx)
    (pairwise_lines hplan hplaces) h

theorem settle_eq_self (h : ∀ x ∈ plan.lines plan.timeline.zipIdx, plan.Settled ledger x) :
    (plan.settle ledger).result = .ok ledger :=
  settleIn_of_settled h plan.settings.passes []

/-- Without a sweep the ledger is what it was. -/
theorem run_settle_of_zero (hpasses : plan.settings.passes = 0) (ledger : Ledger α)
    (warnings : List (Warning α)) : ((plan.settle ledger).run warnings).1 = .ok ledger := by
  unfold settle
  rw [hpasses]
  rfl

/-- Earlier warnings make no difference. -/
theorem run_settle_eq_result (hplan : plan.Reviewed) (ledger : Ledger α)
    (warnings : List (Warning α)) :
    ((plan.settle ledger).run warnings).1 = (plan.settle ledger).result := by
  rcases Nat.eq_zero_or_pos plan.settings.passes with hzero | hpasses
  · rw [run_settle_of_zero hzero]
    exact (run_settle_of_zero hzero ledger []).symm
  · rw [run_settle hplan hpasses, result_settle hplan hpasses]

theorem settle_eq_ok (hplan : plan.Reviewed) (h : (plan.settle ledger).result = .ok ledger') :
    ledger' = ledger ∨
      (plan.lines plan.timeline.zipIdx).foldlM plan.settleLine ledger = .ok ledger' := by
  rcases Nat.eq_zero_or_pos plan.settings.passes with hzero | hpasses
  · left
    exact (Except.ok.inj ((run_settle_of_zero hzero ledger []).symm.trans h)).symm
  · right
    rw [← result_settle hplan hpasses, h]

/-- Settling changes cells of accounts and periods of the plan only. -/
theorem known_of_settle (hplan : plan.Reviewed) (h : (plan.settle ledger).result = .ok ledger')
    {key : CellKey} (hkey : ledger'.cell? key ≠ ledger.cell? key) :
    (∃ a ∈ plan.chart.accounts, a.id = key.account) ∧ ∃ p ∈ plan.timeline, p.id = key.period := by
  rcases settle_eq_ok hplan h with rfl | hlines
  · exact absurd rfl hkey
  · obtain ⟨x, hx, rfl⟩ := exists_line_of_changed hlines hkey
    obtain ⟨hperiod, haccount⟩ := stands_of_mem_lines plan.places_zipIdx hx
    exact ⟨⟨x.account, (mem_of_account? haccount).1, rfl⟩, x.period,
      List.mem_of_getElem? hperiod, rfl⟩

theorem settle_settled (hplan : plan.Reviewed) (h : (plan.settle ledger).result = .ok ledger') :
    (plan.settle ledger').result = .ok ledger' := by
  rcases Nat.eq_zero_or_pos plan.settings.passes with hzero | hpasses
  · exact run_settle_of_zero hzero ledger' []
  · exact settle_eq_self (settled_settle hplan hpasses h)

/-- **One sweep is enough.** However many sweeps are allowed, settling ends as it does with one, and
settling once more changes nothing. -/
theorem settle_once {m : Model α} (hcheck : m.check = .ok ()) (hplan : Plan.of m = .ok plan) :
    (∀ passes, Plan.of (m.withPasses passes) = .ok (plan.withPasses passes)) ∧
    (∀ passes, 1 ≤ passes → ∀ ledger, ((plan.withPasses passes).settle ledger).result =
      ((plan.withPasses 1).settle ledger).result) ∧
    ∀ ledger settled, (plan.settle ledger).result = .ok settled →
      (plan.settle settled).result = .ok settled := by
  have hreviewed := reviewed_of hcheck hplan
  refine ⟨of_withPasses hplan, ?_, ?_⟩
  · intro passes hpasses ledger
    rw [result_settle (hreviewed.withPasses passes) hpasses,
      result_settle (hreviewed.withPasses 1) (Nat.le_refl 1)]
    rfl
  · exact fun ledger settled => settle_settled hreviewed

/-- A mill with two sites. What the first one makes is beyond all bounds, so the gap is no number,
and neither is the grand total. The total of a later year was recorded as negative zero. -/
def mill : Model Float where
  name := "Mill"
  accounts := [
    { (Account.flow ⟨"grand"⟩ "Grand total" : Account Float) with
      total := some (.ofTerms [⟨⟨"gap"⟩, .add⟩, ⟨⟨"sites"⟩, .sub⟩]) },
    { (Account.flow ⟨"sites"⟩ "All sites" : Account Float) with total := some .ofChildren },
    { (Account.flow ⟨"gap"⟩ "Gap" : Account Float) with
      total := some (.ofTerms [⟨⟨"north"⟩, .add⟩, ⟨⟨"north"⟩, .sub⟩]) },
    { (Account.flow ⟨"yield"⟩ "Yield" : Account Float) with
      total := some (.ofTerms [⟨⟨"sites"⟩, .add⟩, ⟨⟨"south"⟩, .div⟩]) },
    { (Account.flow ⟨"north"⟩ "North" : Account Float) with parent := some ⟨"sites"⟩ },
    { (Account.flow ⟨"south"⟩ "South" : Account Float) with parent := some ⟨"sites"⟩ }]
  periods := [.plain ⟨"2025"⟩ 2025, .imported ⟨"2024"⟩ 2024]
  ledger :=
    ((Ledger.empty.insert ⟨⟨"north"⟩, ⟨"2024"⟩⟩ ⟨1 / 0, false⟩).insert
      ⟨⟨"south"⟩, ⟨"2024"⟩⟩ ⟨100, false⟩).insert ⟨⟨"sites"⟩, ⟨"2025"⟩⟩ ⟨-0, true⟩
  settings := Settings.standard

def millPlan : Plan Float where
  chart := mill.chart
  timeline := [.imported ⟨"2024"⟩ 2024, .plain ⟨"2025"⟩ 2025]
  settings := mill.settings
  order := [⟨"north"⟩, ⟨"gap"⟩, ⟨"south"⟩, ⟨"sites"⟩, ⟨"grand"⟩, ⟨"yield"⟩]

/-- There is no yield in the later year, when nothing is recorded for the second site. -/
def millSettled : Ledger Float :=
  (((((mill.ledger.derive ⟨⟨"gap"⟩, ⟨"2024"⟩⟩ (0 / 0)).derive ⟨⟨"sites"⟩, ⟨"2024"⟩⟩ (1 / 0)).derive
    ⟨⟨"grand"⟩, ⟨"2024"⟩⟩ (0 / 0)).derive ⟨⟨"yield"⟩, ⟨"2024"⟩⟩ (1 / 0)).derive
    ⟨⟨"gap"⟩, ⟨"2025"⟩⟩ 0).derive ⟨⟨"grand"⟩, ⟨"2025"⟩⟩ 0

theorem check_mill : mill.check = .ok () := rfl

theorem plan_mill : Plan.of mill = .ok millPlan := by
  have horder : mill.chart.precedence.order.toOption = some millPlan.order := by decide +kernel
  exact of_eq_ok_iff.2 ⟨order_eq_ok.2 (eq_ok_of_toOption horder), rfl, rfl, rfl⟩

theorem settle_mill :
    mill.check = .ok () ∧ Plan.of mill = .ok millPlan ∧
    ((millPlan.withPasses 3).settle mill.ledger).result =
      ((millPlan.withPasses 1).settle mill.ledger).result ∧
    (millPlan.settle mill.ledger).result = .ok millSettled ∧
    (millPlan.settle millSettled).result = .ok millSettled := by
  have honce := settle_once check_mill plan_mill
  have hentries : (millPlan.settle mill.ledger).result.toOption = some millSettled := by
    decide +kernel
  have hsettled := eq_ok_of_toOption hentries
  exact ⟨check_mill, plan_mill, honce.2.1 3 (by decide) mill.ledger, hsettled,
    honce.2.2 mill.ledger millSettled hsettled⟩

end Plan

end ProForma
