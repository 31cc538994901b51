import ProForma.Proofs.WellFormed

/-!
# Reports of parent loops

For every account the review follows parents as many steps as there are accounts, and reports the
account if that leads back to it. So the accounts that are reported are those on a loop, and not
those from which parents merely lead into one. Where none is reported, following parents ends.
-/

namespace ProForma

variable {α : Type}

/-! ### Words -/

/-- A text that goes on from an opening differs from all texts that open otherwise. -/
theorem append_ne {opening rest text : String} (h : ¬ opening.toList <+: text.toList) :
    opening ++ rest ≠ text :=
  fun heq => h ⟨rest.toList, by rw [← heq, String.toList_append]⟩

/-- No other defect is described in the words for a parent loop. -/
theorem Defect.eq_parentLoop_of_message {d : Defect}
    (h : d.message = Defect.parentLoop.message) : d = .parentLoop := by
  by_contra hne
  revert h
  cases d with
  | parentLoop => exact absurd rfl hne
  | duplicateAccount | underivedItem | itemAdjusts | itemIsProfit | itemFeedsItem
  | feedsWithoutBalance | relationOnFlow | emptyQuotient | secondRelation => decide
  | ruleOnTotal rule | itemRule rule | reservedRule rule => cases rule <;> decide
  | keyTaken key holder =>
      change key.title ++ _ ++ _ ++ _ ≠ _
      rw [String.append_assoc, String.append_assoc]
      exact append_ne (by cases key <;> decide)
  | adjustsNoBalance name | duplicatePeriod name | nameTwice name | unknownOperation name =>
      change _ ++ _ ++ _ ≠ _
      rw [String.append_assoc]
      exact append_ne (by decide)
  | sharedOrder first second order =>
      change _ ++ _ ++ _ ++ _ ++ _ ++ _ ≠ _
      simp only [String.append_assoc]
      exact append_ne (by decide)

/-! ### Reports -/

namespace Chart

variable {chart : Chart α} {a : Account α} {fault : Fault α} {id : AccountId} {d : Defect}

theorem defect_notMem_unknown {ids : List AccountId} : .defect id d ∉ chart.unknown ids := by
  intro h
  obtain ⟨_, -, hfault⟩ := List.mem_map.1 h
  cases hfault

theorem exists_keyTaken {held : List (KeyLine × AccountId)} {accounts : List (Account α)}
    (h : fault ∈ takenKeys held accounts) :
    ∃ id key holder, fault = .defect id (.keyTaken key holder) := by
  induction accounts generalizing held with
  | nil => cases h
  | cons a accounts ih =>
      unfold takenKeys at h
      split at h
      · exact ih h
      · dsimp only at h
        split at h
        · rcases List.mem_cons.1 h with rfl | h
          · exact ⟨_, _, _, rfl⟩
          · exact ih h
        · exact ih h

/-- Of all that can be out of order for an account, loops are reported by the look at its parent. -/
theorem parentLoop_mem_accountFaults_iff :
    .defect id .parentLoop ∈ chart.accountFaults a ↔ a.id = id ∧ chart.loops a = true := by
  have htotal : .defect id .parentLoop ∉ chart.totalFaults a := by
    unfold totalFaults
    rw [List.mem_append, mem_faultIf]
    rintro (h | ⟨-, h⟩)
    · exact defect_notMem_unknown h
    · cases h
  have hparameter : .defect id .parentLoop ∉ chart.parameterFaults a := by
    simp [parameterFaults, mem_faultIf, Fault.defect]
  have hitem : .defect id .parentLoop ∉ itemFaults a := by
    unfold itemFaults
    grind [mem_faultIf, Fault.defect]
  have hadjustment : .defect id .parentLoop ∉ chart.adjustmentFaults a := by
    unfold adjustmentFaults
    grind [mem_faultIf, Fault.defect]
  have hfeeds (condition : Bool) :
      .defect id .parentLoop ∉ faultIf condition (.defect a.id .feedsWithoutBalance : Fault α) := by
    simp [mem_faultIf, Fault.defect]
  have hrelation : .defect id .parentLoop ∉ chart.relationFaults a := by
    unfold relationFaults
    rw [List.mem_append, mem_faultIf]
    rintro (h | ⟨-, h⟩)
    · exact defect_notMem_unknown h
    · cases h
  have hloop : (.defect id .parentLoop : Fault α) = .defect a.id .parentLoop ↔ a.id = id := by
    simp [Fault.defect, eq_comm]
  unfold accountFaults parentFaults
  simp only [List.mem_append, defect_notMem_unknown, htotal, hparameter, hitem, hadjustment, hfeeds,
    hrelation, mem_faultIf, hloop, false_or, or_false]
  exact and_comm

theorem parentLoop_mem_faults_iff : .defect id .parentLoop ∈ chart.faults ↔
    ∃ a ∈ chart.accounts, a.id = id ∧ chart.loops a = true := by
  have hduplicate : .defect id .parentLoop ∉ chart.duplicateAccounts := by
    simp [duplicateAccounts, Fault.defect]
  have hkeys : .defect id .parentLoop ∉ takenKeys [] chart.accounts := by
    intro h
    obtain ⟨_, _, _, hfault⟩ := exists_keyTaken h
    cases hfault
  unfold faults
  simp only [List.mem_append, hduplicate, hkeys, false_or, List.mem_flatMap,
    parentLoop_mem_accountFaults_iff]

end Chart

namespace Model

variable {m : Model α} {id : AccountId}

/-- The review finds something wrong with the account and describes it in these words. -/
def Reports (m : Model α) (id : AccountId) (words : String) : Prop :=
  ∃ d, .defect id d ∈ m.faults ∧ d.message = words

theorem parentLoop_notMem_sharedOrders (periods : List Period) :
    (.defect id .parentLoop : Fault α) ∉ sharedOrders periods := by
  induction periods with
  | nil => exact List.not_mem_nil
  | cons p periods ih =>
      cases periods with
      | nil => exact List.not_mem_nil
      | cons q periods =>
          unfold sharedOrders
          rw [List.mem_append, Chart.mem_faultIf]
          rintro (⟨-, h⟩ | h)
          · cases h
          · exact ih h

theorem parentLoop_mem_faults_iff : .defect id .parentLoop ∈ m.faults ↔
    ∃ a ∈ m.accounts, a.id = id ∧ m.chart.loops a = true := by
  have hperiods : .defect id .parentLoop ∉ m.periodFaults := by
    unfold periodFaults
    rw [List.mem_append]
    rintro (h | h)
    · obtain ⟨_, -, hfault⟩ := List.mem_map.1 h
      cases hfault
    · exact parentLoop_notMem_sharedOrders _ h
  have hcells (key : CellKey) : .defect id .parentLoop ∉ m.cellFaults key := by
    unfold cellFaults
    grind [Chart.mem_faultIf, Fault.defect]
  unfold faults
  simp only [List.mem_append, List.mem_flatMap, hperiods, hcells, and_false, exists_false, or_false]
  exact Chart.parentLoop_mem_faults_iff

theorem reports_parentLoop_iff : m.Reports id "parent chain loops back to itself" ↔
    ∃ a ∈ m.accounts, a.id = id ∧ m.chart.loops a = true := by
  rw [← parentLoop_mem_faults_iff]
  constructor
  · rintro ⟨d, hd, hwords⟩
    obtain rfl := Defect.eq_parentLoop_of_message hwords
    exact hd
  · exact fun h => ⟨.parentLoop, h, rfl⟩

/-- **Reported loops.** If no identifier is used twice, the review reports a parent loop for exactly
those accounts that following parents leads back to. If it reports none, following parents from any
identifier ends after no more steps than there are accounts and one. -/
theorem reports_iff_loops (hids : (m.accounts.map Account.id).Nodup) :
    (∀ id, m.Reports id "parent chain loops back to itself" ↔
      Relation.TransGen m.chart.HasParent id id) ∧
    ((∀ id, ¬ m.Reports id "parent chain loops back to itself") →
      ∀ id, ∃ n ≤ m.accounts.length + 1, m.chart.up^[n] (some id) = none) := by
  have hreports : ∀ id, m.Reports id "parent chain loops back to itself" ↔
      Relation.TransGen m.chart.HasParent id id := by
    intro id
    rw [reports_parentLoop_iff]
    constructor
    · rintro ⟨a, ha, rfl, hloops⟩
      exact (Chart.loops_iff hids ha).1 hloops
    · intro hloop
      obtain ⟨_, ⟨a, ha, rfl, -⟩, -⟩ := Relation.TransGen.head'_iff.1 hloop
      exact ⟨a, ha, rfl, (Chart.loops_iff hids ha).2 hloop⟩
  refine ⟨hreports, fun hnone id => ⟨_, le_rfl, Chart.iterate_up_eq_none hids ?_ (some id)⟩⟩
  exact fun a _ hloop => hnone a.id ((hreports a.id).2 hloop)

/-- Tills under one another, each with its parent. -/
def tills (parents : List (String × Option String)) : Model Float where
  name := "Tills"
  accounts := parents.map fun entry =>
    { Account.stock ⟨entry.1⟩ entry.1 .debit with parent := entry.2.map AccountId.mk }
  periods := []
  ledger := .empty
  settings := .standard

/-- The till and the safe are on a loop, into which the desk leads. -/
def loopedTills : Model Float :=
  tills [("desk", some "till"), ("till", some "safe"), ("safe", some "till")]

def nestedTills : Model Float :=
  tills [("desk", some "till"), ("till", some "safe"), ("safe", none)]

theorem reports_iff_loops_tills :
    (loopedTills.accounts.map Account.id).Nodup ∧
    loopedTills.Reports ⟨"till"⟩ "parent chain loops back to itself" ∧
    Relation.TransGen loopedTills.chart.HasParent ⟨"till"⟩ ⟨"till"⟩ ∧
    ¬ loopedTills.Reports ⟨"desk"⟩ "parent chain loops back to itself" ∧
    ¬ Relation.TransGen loopedTills.chart.HasParent ⟨"desk"⟩ ⟨"desk"⟩ ∧
    (nestedTills.accounts.map Account.id).Nodup ∧
    (∀ id, ¬ nestedTills.Reports id "parent chain loops back to itself") ∧
    ∃ n ≤ 4, nestedTills.chart.up^[n] (some ⟨"desk"⟩) = none := by
  have hids : (loopedTills.accounts.map Account.id).Nodup := by decide
  have hids' : (nestedTills.accounts.map Account.id).Nodup := by decide
  have htill : loopedTills.Reports ⟨"till"⟩ "parent chain loops back to itself" :=
    reports_parentLoop_iff.2 ⟨_, List.mem_of_getElem? (i := 1) rfl, rfl, by decide⟩
  have hdesk : ¬ loopedTills.Reports ⟨"desk"⟩ "parent chain loops back to itself" := by
    rw [reports_parentLoop_iff]
    simp only [loopedTills, tills, List.map_cons, List.map_nil, List.mem_cons, List.not_mem_nil]
    rintro ⟨a, rfl | rfl | rfl | h, hid, hloops⟩
    · exact absurd hloops (by decide)
    · exact absurd hid (by decide)
    · exact absurd hid (by decide)
    · exact h
  have hnone : ∀ id, ¬ nestedTills.Reports id "parent chain loops back to itself" := by
    intro id
    rw [reports_parentLoop_iff]
    rintro ⟨a, ha, -, hloops⟩
    have hfree : nestedTills.accounts.all (fun a => !nestedTills.chart.loops a) = true := by decide
    simpa [hloops] using List.all_eq_true.1 hfree a ha
  exact ⟨hids, htill, ((reports_iff_loops hids).1 _).1 htill, hdesk,
    fun hloop => hdesk (((reports_iff_loops hids).1 _).2 hloop), hids', hnone,
    (reports_iff_loops hids').2 hnone _⟩

end Model

end ProForma
