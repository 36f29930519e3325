import FeeDistribution.Environment.Json
import FeeDistribution.Ledger.Json
import FeeDistribution.Pool.Json
import FeeDistribution.Proofs.HexTexts
import FeeDistribution.Settings.Json

/-!
# Stored state is read back

Every record that is written as JSON is read back from its text as it was.  The records differ only
in their members, so each proof lists the members and why each of them survives.
-/

namespace FeeDistribution

open Json (Survives)

/-! ## Periods and windows -/

/-- Every number of a period is in the range of its kind. -/
structure Period.InRange (period : Period) : Prop where
  id_le : period.id ≤ Quantity.maxWord
  earliest_le : Quantity.earliest ≤ period.start
  le_latest : period.start ≤ Quantity.latest
  fees_le : period.fees.total ≤ Quantity.maxAmount
  feesClaimed_le : period.fees.claimed ≤ Quantity.maxAmount
  rewards_le : period.rewards.total ≤ Quantity.maxAmount
  rewardsClaimed_le : period.rewards.claimed ≤ Quantity.maxAmount

theorem Period.InRange.survives {period : Period} (hrange : period.InRange) :
    Survives toJson ofJson? period := by
  have hid := Json.survives_word hrange.id_le
  have hstart := Json.survives_timestamp hrange.earliest_le hrange.le_latest
  have hfees := Json.survives_amount hrange.fees_le
  have hfeesClaimed := Json.survives_amount hrange.feesClaimed_le
  have hrewards := Json.survives_amount hrange.rewards_le
  have hrewardsClaimed := Json.survives_amount hrange.rewardsClaimed_le
  constructor
  · apply Json.plain_record
    simp [hid.plain, hstart.plain, hfees.plain, hfeesClaimed.plain, hrewards.plain,
      hrewardsClaimed.plain]
  · unfold toJson ofJson?
    rw [Json.fields?_record memberNames rfl (by decide)]
    simp [Json.required, hid.read_write, hstart.read_write, hfees.read_write,
      hfeesClaimed.read_write, hrewards.read_write, hrewardsClaimed.read_write]

/-- Every slot of a window is in range, and so is its head. -/
structure Window.InRange (window : Window) : Prop where
  slots : ∀ period ∈ window.slots.toList, period.InRange
  head_le : window.head ≤ Quantity.maxWord

theorem Window.InRange.survives {window : Window} (hrange : window.InRange) :
    Survives toJson ofJson? window := by
  have hslots := Json.survives_list _ fun period hperiod => (hrange.slots period hperiod).survives
  have hhead := Json.survives_word hrange.head_le
  constructor
  · apply Json.plain_record
    simp [hslots.plain, hhead.plain]
  · unfold toJson ofJson?
    rw [Json.fields?_record ["slots", "head"] rfl (by decide)]
    simp [Json.required, hslots.read_write, hhead.read_write]

/-! ## Payments, entitlements and closes -/

theorem Asset.survives (asset : Asset) : Survives toJson ofJson? asset := by
  cases asset <;> exact ⟨rfl, rfl⟩

/-- The amount of a payout is in range. -/
def Payout.InRange (leg : Payout) : Prop :=
  leg.amount ≤ Quantity.maxAmount

theorem Payout.InRange.survives {leg : Payout} (hrange : leg.InRange) :
    Survives toJson ofJson? leg := by
  have hasset := leg.asset.survives
  have hamount := Json.survives_amount hrange
  constructor
  · apply Json.plain_record
    simp [hasset.plain, hamount.plain]
  · unfold toJson ofJson?
    rw [Json.fields?_record ["asset", "amount"] rfl (by decide)]
    simp [Json.required, hasset.read_write, hamount.read_write]

/-- Every number of an entitlement is in the range of its kind. -/
structure Entitlement.InRange (owed : Entitlement) : Prop where
  slot_le : owed.slot ≤ Quantity.maxWord
  id_le : owed.id ≤ Quantity.maxWord
  fees_le : owed.fees ≤ Quantity.maxAmount
  rewards_le : owed.rewards ≤ Quantity.maxAmount

theorem Entitlement.InRange.survives {owed : Entitlement} (hrange : owed.InRange) :
    Survives toJson ofJson? owed := by
  have hslot := Json.survives_word hrange.slot_le
  have hid := Json.survives_word hrange.id_le
  have hfees := Json.survives_amount hrange.fees_le
  have hrewards := Json.survives_amount hrange.rewards_le
  constructor
  · apply Json.plain_record
    simp [hslot.plain, hid.plain, hfees.plain, hrewards.plain]
  · unfold toJson ofJson?
    rw [Json.fields?_record ["slot", "fee_period_id", "fees", "rewards"] rfl (by decide)]
    simp [Json.required, hslot.read_write, hid.read_write, hfees.read_write, hrewards.read_write]

/-- Every number of what a close did is in the range of its kind. -/
structure CloseOutcome.InRange (outcome : CloseOutcome) : Prop where
  closed_le : outcome.closed ≤ Quantity.maxWord
  opened_le : outcome.opened ≤ Quantity.maxWord
  burned_le : outcome.burned ≤ Quantity.maxAmount
  rolledFees_le : outcome.rolledFees ≤ Quantity.maxAmount
  rolledRewards_le : outcome.rolledRewards ≤ Quantity.maxAmount
  evicted : outcome.evicted.InRange

theorem CloseOutcome.InRange.survives {outcome : CloseOutcome} (hrange : outcome.InRange) :
    Survives toJson ofJson? outcome := by
  have hclosed := Json.survives_word hrange.closed_le
  have hopened := Json.survives_word hrange.opened_le
  have hburned := Json.survives_amount hrange.burned_le
  have hrolledFees := Json.survives_amount hrange.rolledFees_le
  have hrolledRewards := Json.survives_amount hrange.rolledRewards_le
  have hevicted := hrange.evicted.survives
  constructor
  · apply Json.plain_record
    simp [hclosed.plain, hopened.plain, hburned.plain, hrolledFees.plain, hrolledRewards.plain,
      hevicted.plain]
  · unfold toJson ofJson?
    rw [Json.fields?_record memberNames rfl (by decide)]
    simp [Json.required, hclosed.read_write, hopened.read_write, hburned.read_write,
      hrolledFees.read_write, hrolledRewards.read_write, hevicted.read_write]

/-- Every number of a receipt is in the range of its kind. -/
structure Receipt.InRange (receipt : Receipt) : Prop where
  fees_le : receipt.fees ≤ Quantity.maxAmount
  rewards_le : receipt.rewards ≤ Quantity.maxAmount
  through_le : receipt.through ≤ Quantity.maxWord
  periods : ∀ id ∈ receipt.periods, id ≤ Quantity.maxWord

theorem Receipt.InRange.survives {receipt : Receipt} (hrange : receipt.InRange) :
    Survives toJson ofJson? receipt := by
  have haccount := receipt.account.survives
  have hfees := Json.survives_amount hrange.fees_le
  have hrewards := Json.survives_amount hrange.rewards_le
  have hthrough := Json.survives_word hrange.through_le
  have hperiods := Json.survives_list _ fun id hid => Json.survives_word (hrange.periods id hid)
  constructor
  · apply Json.plain_record
    simp [haccount.plain, hfees.plain, hrewards.plain, hthrough.plain, hperiods.plain]
  · unfold toJson ofJson?
    rw [Json.fields?_record
      ["account", "fees_paid", "rewards_paid", "claimed_through", "periods"] rfl
      (by decide)]
    simp [Json.required, haccount.read_write, hfees.read_write, hrewards.read_write,
      hthrough.read_write, hperiods.read_write]

/-! ## Settings -/

/-- Every number of the terms is in the range of its kind. -/
structure Terms.InRange (terms : Terms) : Prop where
  issuanceRatio_le : terms.issuanceRatio ≤ Quantity.maxWord
  targetThreshold_le : terms.targetThreshold ≤ Quantity.maxWord
  stalePeriod_le : terms.stalePeriod ≤ Quantity.maxWord

theorem Terms.InRange.survives {terms : Terms} (hrange : terms.InRange) :
    Survives toJson ofJson? terms := by
  have hissuanceRatio := Json.survives_word hrange.issuanceRatio_le
  have htargetThreshold := Json.survives_word hrange.targetThreshold_le
  have hstalePeriod := Json.survives_word hrange.stalePeriod_le
  have hrequiredRates := Json.survives_list terms.requiredRates
    fun key _ => Json.survives_text key
  constructor
  · apply Json.plain_record
    simp [hissuanceRatio.plain, htargetThreshold.plain, hstalePeriod.plain, hrequiredRates.plain]
  · unfold toJson ofJson?
    rw [Json.fields?_record memberNames rfl (by decide)]
    simp [Json.optional, hissuanceRatio.read_write, htargetThreshold.read_write,
      hstalePeriod.read_write, hrequiredRates.read_write]

/-- Every number of the settings is in the range of its kind. -/
structure Settings.InRange (settings : Settings) : Prop where
  length_le : settings.length ≤ Quantity.maxWord
  duration_le : settings.duration ≤ Quantity.maxWord
  terms : settings.terms.InRange
  eventBuffer_le : settings.eventBuffer ≤ Quantity.maxWord

theorem Settings.InRange.survives {settings : Settings} (hrange : settings.InRange) :
    Survives toJson ofJson? settings := by
  have hlength := Json.survives_word hrange.length_le
  have hduration := Json.survives_word hrange.duration_le
  have howner := Json.survives_option settings.owner
    (fun account _ => account.survives) nofun
  have hrelayer := Json.survives_option settings.relayer
    (fun account _ => account.survives) nofun
  have hterms := hrange.terms.survives
  have heventBuffer := Json.survives_word hrange.eventBuffer_le
  constructor
  · apply Json.plain_record
    simp [hlength.plain, hduration.plain, howner.plain, hrelayer.plain, hterms.plain,
      heventBuffer.plain]
  · unfold toJson ofJson?
    rw [Json.fields?_record memberNames rfl (by decide)]
    simp [Json.optional, hlength.read_write, hduration.read_write, howner.read_write,
      hrelayer.read_write, hterms.read_write, heventBuffer.read_write]

/-! ## The reward stream -/

theorem Json.survives_ratio {ratio : Nat} (hratio : ratio ≤ Quantity.maxRatio) :
    Survives ofRatio ratio? ratio where
  plain := rfl
  read_write := by
    simp [ofRatio, ratio?, ofText, text?, Text.HexNumber.read?_render hratio]

/-- Every number of a checkpoint is in the range of its kind. -/
structure Checkpoint.InRange (checkpoint : Checkpoint) : Prop where
  ratio_le : checkpoint.ratio ≤ Quantity.maxRatio
  claimable_le : checkpoint.claimable ≤ Quantity.maxAmount

theorem Checkpoint.InRange.survives {checkpoint : Checkpoint} (hrange : checkpoint.InRange) :
    Survives toJson ofJson? checkpoint := by
  have hratio := Json.survives_ratio hrange.ratio_le
  have hclaimable := Json.survives_amount hrange.claimable_le
  constructor
  · apply Json.plain_record
    simp [hratio.plain, hclaimable.plain]
  · unfold toJson ofJson?
    rw [Json.fields?_record ["entry_accumulated_rewards", "claimable"] rfl (by decide)]
    simp [Json.required, hratio.read_write, hclaimable.read_write]

namespace Rewards

variable {entries : List (Account × Checkpoint)} {checkpoints : Std.ExtTreeMap Account Checkpoint}

/-- The map with further entries, of which the later ones replace the earlier ones. -/
def insertAll (checkpoints : Std.ExtTreeMap Account Checkpoint)
    (entries : List (Account × Checkpoint)) : Std.ExtTreeMap Account Checkpoint :=
  entries.foldl (fun checkpoints (account, entry) => checkpoints.insert account entry) checkpoints

theorem getElem?_insertAll_of_notMem (checkpoints : Std.ExtTreeMap Account Checkpoint)
    {account : Account} (haccount : account ∉ entries.map Prod.fst) :
    (insertAll checkpoints entries)[account]? = checkpoints[account]? := by
  induction entries generalizing checkpoints with
  | nil => rfl
  | cons entry entries ih =>
      rw [List.map_cons, List.mem_cons, not_or] at haccount
      have hother : ¬ compare entry.1 account = .eq :=
        fun heq => haccount.1 (Std.LawfulEqOrd.compare_eq_iff_eq.mp heq).symm
      have hinsert := ih (checkpoints.insert entry.1 entry.2) haccount.2
      rw [Std.ExtTreeMap.getElem?_insert, if_neg hother] at hinsert
      exact hinsert

theorem getElem?_insertAll_of_mem (checkpoints : Std.ExtTreeMap Account Checkpoint)
    {account : Account} {checkpoint : Checkpoint}
    (hnodup : (entries.map Prod.fst).Nodup) (hentry : (account, checkpoint) ∈ entries) :
    (insertAll checkpoints entries)[account]? = some checkpoint := by
  induction entries generalizing checkpoints with
  | nil => cases hentry
  | cons entry entries ih =>
      rw [List.map_cons, List.nodup_cons] at hnodup
      rcases List.mem_cons.mp hentry with rfl | hentry
      · have hinsert := getElem?_insertAll_of_notMem
          (checkpoints.insert account checkpoint) hnodup.1
        rw [Std.ExtTreeMap.getElem?_insert_self] at hinsert
        exact hinsert
      · exact ih _ hnodup.2 hentry

/-- The entries of a map give the map again, in whatever order they are inserted. -/
theorem insertAll_of_perm (hperm : entries.Perm checkpoints.toList) :
    insertAll ∅ entries = checkpoints := by
  have hnodup : (entries.map Prod.fst).Nodup := by
    rw [(hperm.map Prod.fst).nodup_iff, Std.ExtTreeMap.map_fst_toList_eq_keys]
    exact Std.ExtTreeMap.nodup_keys
  apply Std.ExtTreeMap.ext_getElem?
  intro account
  by_cases haccount : account ∈ entries.map Prod.fst
  · obtain ⟨⟨_, checkpoint⟩, hentry, rfl⟩ := List.mem_map.mp haccount
    rw [getElem?_insertAll_of_mem _ hnodup hentry]
    exact (Std.ExtTreeMap.mem_toList_iff_getElem?_eq_some.mp (hperm.mem_iff.mp hentry)).symm
  · rw [getElem?_insertAll_of_notMem _ haccount, Std.ExtTreeMap.getElem?_empty]
    cases hget : checkpoints[account]? with
    | none => rfl
    | some checkpoint =>
        have hentry := hperm.mem_iff.mpr (Std.ExtTreeMap.mem_toList_iff_getElem?_eq_some.mpr hget)
        exact absurd (List.mem_map_of_mem hentry) haccount

/-- The tree of checkpoints in a given order. -/
def entriesToJson (entries : List (Account × Checkpoint)) : Json :=
  Json.record (entries.map fun (account, entry) => (account.hex, entry.toJson))

theorem plain_entriesToJson (hrange : ∀ entry ∈ entries, entry.2.InRange) :
    (entriesToJson entries).Plain := by
  apply Json.plain_record
  intro member hmember
  obtain ⟨entry, hentry, rfl⟩ := List.mem_map.mp hmember
  exact (hrange entry hentry).survives.plain

theorem checkpointsOfJson?_entriesToJson (hrange : ∀ entry ∈ entries, entry.2.InRange) :
    checkpointsOfJson? (entriesToJson entries) = some (insertAll ∅ entries) := by
  simp only [entriesToJson, Json.record, checkpointsOfJson?, insertAll, List.map_map]
  generalize (∅ : Std.ExtTreeMap Account Checkpoint) = checkpoints
  induction entries generalizing checkpoints with
  | nil => rfl
  | cons entry entries ih =>
      obtain ⟨hentry, hrange⟩ := List.forall_mem_cons.mp hrange
      have hrest := ih hrange (checkpoints.insert entry.1 entry.2)
      simp only [List.map_cons, List.foldlM_cons, List.foldl_cons, Function.comp_apply,
        Option.bind_some, Account.ofHex?_hex, hentry.survives.read_write] at hrest ⊢
      exact hrest

/-- The tree of the reward stream with its checkpoints in a given order. -/
def toJsonWith (entries : List (Account × Checkpoint)) (rewards : Rewards) : Json :=
  Json.record
    [("accumulated_rewards_per_share", Json.ofRatio rewards.ratio),
      ("dust", Json.ofNat rewards.dust),
      ("pending", Json.ofNat rewards.pending),
      ("entries", entriesToJson entries),
      ("total_notified", Json.ofNat rewards.notified),
      ("total_paid", Json.ofNat rewards.paid)]

theorem toJson_eq (rewards : Rewards) :
    rewards.toJson = rewards.toJsonWith rewards.checkpoints.toList :=
  rfl

/-- Every number of the reward stream is in the range of its kind. -/
structure InRange (rewards : Rewards) : Prop where
  ratio_le : rewards.ratio ≤ Quantity.maxRatio
  dust_le : rewards.dust ≤ Quantity.maxAmount
  pending_le : rewards.pending ≤ Quantity.maxAmount
  checkpoints : ∀ entry ∈ rewards.checkpoints.toList, entry.2.InRange
  notified_le : rewards.notified ≤ Quantity.maxAmount
  paid_le : rewards.paid ≤ Quantity.maxAmount

theorem InRange.survives {rewards : Rewards} (hrange : rewards.InRange)
    (hperm : entries.Perm rewards.checkpoints.toList) :
    Survives (toJsonWith entries) ofJson? rewards := by
  have hentries : ∀ entry ∈ entries, entry.2.InRange :=
    fun entry hentry => hrange.checkpoints entry (hperm.mem_iff.mp hentry)
  have hratio := Json.survives_ratio hrange.ratio_le
  have hdust := Json.survives_amount hrange.dust_le
  have hpending := Json.survives_amount hrange.pending_le
  have hcheckpoints := checkpointsOfJson?_entriesToJson hentries
  have hnotified := Json.survives_amount hrange.notified_le
  have hpaid := Json.survives_amount hrange.paid_le
  rw [insertAll_of_perm hperm] at hcheckpoints
  constructor
  · apply Json.plain_record
    simp [hratio.plain, hdust.plain, hpending.plain, plain_entriesToJson hentries, hnotified.plain,
      hpaid.plain]
  · unfold toJsonWith ofJson?
    rw [Json.fields?_record memberNames rfl (by decide)]
    simp [Json.required, Json.optional, hratio.read_write, hdust.read_write, hpending.read_write,
      hcheckpoints, hnotified.read_write, hpaid.read_write]

end Rewards

/-! ## The round trip -/

/-- Every value of a stored type whose numbers are in range is read back from its own text.  The
entries of the reward stream may stand in any order. -/
theorem stored_state_reads_back :
    (∀ period : Period, period.InRange →
        (Json.parse? period.toJson.compact).bind Period.ofJson? = some period) ∧
      (∀ window : Window, window.InRange →
        (Json.parse? window.toJson.compact).bind Window.ofJson? = some window) ∧
      (∀ leg : Payout, leg.InRange →
        (Json.parse? leg.toJson.compact).bind Payout.ofJson? = some leg) ∧
      (∀ owed : Entitlement, owed.InRange →
        (Json.parse? owed.toJson.compact).bind Entitlement.ofJson? = some owed) ∧
      (∀ outcome : CloseOutcome, outcome.InRange →
        (Json.parse? outcome.toJson.compact).bind CloseOutcome.ofJson? = some outcome) ∧
      (∀ receipt : Receipt, receipt.InRange →
        (Json.parse? receipt.toJson.compact).bind Receipt.ofJson? = some receipt) ∧
      (∀ checkpoint : Checkpoint, checkpoint.InRange →
        (Json.parse? checkpoint.toJson.compact).bind Checkpoint.ofJson? = some checkpoint) ∧
      (∀ rewards : Rewards, rewards.InRange →
        (Json.parse? rewards.toJson.compact).bind Rewards.ofJson? = some rewards ∧
          ∀ entries : List (Account × Checkpoint), entries.Perm rewards.checkpoints.toList →
            (Json.parse? (rewards.toJsonWith entries).compact).bind Rewards.ofJson? =
              some rewards) ∧
      (∀ terms : Terms, terms.InRange →
        (Json.parse? terms.toJson.compact).bind Terms.ofJson? = some terms) ∧
      ∀ settings : Settings, settings.InRange →
        (Json.parse? settings.toJson.compact).bind Settings.ofJson? = some settings := by
  refine ⟨?_, ?_, ?_, ?_, ?_, ?_, ?_, ?_, ?_, ?_⟩
  · exact fun _ hrange => hrange.survives.parse_bind
  · exact fun _ hrange => hrange.survives.parse_bind
  · exact fun _ hrange => hrange.survives.parse_bind
  · exact fun _ hrange => hrange.survives.parse_bind
  · exact fun _ hrange => hrange.survives.parse_bind
  · exact fun _ hrange => hrange.survives.parse_bind
  · exact fun _ hrange => hrange.survives.parse_bind
  · intro rewards hrange
    refine ⟨?_, fun entries hperm => (hrange.survives hperm).parse_bind⟩
    rw [rewards.toJson_eq]
    exact (hrange.survives (.refl _)).parse_bind
  · exact fun _ hrange => hrange.survives.parse_bind
  · exact fun _ hrange => hrange.survives.parse_bind

/-- Terms with the greatest numbers, and rates whose keys are empty or need escapes. -/
def awkwardTerms : Terms where
  issuanceRatio := Quantity.maxWord
  targetThreshold := Quantity.maxWord
  stalePeriod := Quantity.maxWord
  requiredRates := ["", "\x22\x5c/\n\x01\x7fé"]

/-- A reward stream at the limits, with a checkpoint. -/
def fullStream : Rewards where
  ratio := Quantity.maxRatio
  dust := Quantity.maxAmount
  pending := Quantity.maxAmount
  checkpoints :=
    (∅ : Std.ExtTreeMap Account Checkpoint).insert .zero
      { ratio := Quantity.maxRatio, claimable := Quantity.maxAmount }
  notified := Quantity.maxAmount
  paid := Quantity.maxAmount

theorem inRange_fullStream : fullStream.InRange where
  ratio_le := Nat.le_refl _
  dust_le := Nat.le_refl _
  pending_le := Nat.le_refl _
  checkpoints := by
    rintro ⟨account, checkpoint⟩ hentry
    have hget := Std.ExtTreeMap.mem_toList_iff_getElem?_eq_some.mp hentry
    simp only [fullStream, Std.ExtTreeMap.getElem?_insert, Std.ExtTreeMap.getElem?_empty,
      Option.ite_none_right_eq_some, Option.some.injEq] at hget
    obtain ⟨_, rfl⟩ := hget
    exact ⟨Nat.le_refl _, Nat.le_refl _⟩
  notified_le := Nat.le_refl _
  paid_le := Nat.le_refl _

theorem stored_state_reads_back_limits :
    awkwardTerms.InRange ∧ fullStream.InRange ∧
      (Json.parse? awkwardTerms.toJson.compact).bind Terms.ofJson? = some awkwardTerms ∧
      (Json.parse? fullStream.toJson.compact).bind Rewards.ofJson? = some fullStream := by
  have hterms : awkwardTerms.InRange := ⟨Nat.le_refl _, Nat.le_refl _, Nat.le_refl _⟩
  obtain ⟨_, _, _, _, _, _, _, hstream, hreads, _⟩ := stored_state_reads_back
  exact ⟨hterms, inRange_fullStream, hreads awkwardTerms hterms,
    (hstream fullStream inRange_fullStream).1⟩

end FeeDistribution
