import FeeDistribution.Event.Json
import FeeDistribution.Proofs.HexTexts

/-!
# Events are read back unless they carry an amount

Events are written for others, and the same text can be read as an event again.  The kind of an
event may stand anywhere among its members, so all of them are taken in before any is looked at.
Amounts are too wide to be held in the meantime: an event that carries an amount is written, but
its text is never read as an event, however small the amount is.  All other events are read back as
they were (`read_tagged`).

## Strategy

What is taken in must be sound and not nested too deeply (`Json.Held`).  Texts are, and so is a
number of 64 bits, whose digits all fit the significand of a scaled number
(`Text.Scaled.ofNat_of_lt`).  The kind is then found by its name, as names differ, and what remains
is the record of the other members (`untagged?_record`).
-/

namespace FeeDistribution

/-! ## Numbers of 64 bits are finite -/

namespace Text.Scaled

/-- The number that digits continue from a first part on. -/
def valueFrom (significand : Nat) (digits : List Nat) : Nat :=
  digits.foldl (fun total digit => 10 * total + digit) significand

theorem le_valueFrom (significand : Nat) (digits : List Nat) :
    significand ≤ valueFrom significand digits := by
  induction digits generalizing significand with
  | nil => exact Nat.le_refl _
  | cons digit digits ih =>
      have hrest : 10 * significand + digit ≤ valueFrom significand (digit :: digits) := ih _
      omega

/-- Digits of a number below the bound all fit. -/
theorem append_of_lt {significand : Nat} {digits : List Nat}
    (hbound : valueFrom significand digits < significandBound) :
    append significand digits = (valueFrom significand digits, []) := by
  induction digits generalizing significand with
  | nil => rfl
  | cons digit digits ih =>
      have hfirst : 10 * significand + digit < significandBound :=
        Nat.lt_of_le_of_lt (le_valueFrom _ digits) hbound
      rw [append, if_pos hfirst]
      exact ih hbound

theorem valueFrom_digits (n : Nat) :
    valueFrom 0 ((Nat.toDigits 10 n).map fun c => c.toNat - 48) = n := by
  rw [valueFrom, List.foldl_map]
  exact Json.decimalValue_renderNat n

theorem ofNat_of_lt {n : Nat} (hn : n < significandBound) : ofNat n = ⟨n, 0⟩ := by
  have hvalue := valueFrom_digits n
  have hdigits := append_of_lt (hvalue.symm ▸ hn)
  rw [hvalue] at hdigits
  rw [ofNat, ofDigits, hdigits]
  rfl

end Text.Scaled

namespace Text.Double

theorem nearest_le (n : Nat) : nearest n ≤ n + Nat.pow 2 (Nat.log2 n + 1 - 53) := by
  unfold nearest
  generalize Nat.pow 2 (Nat.log2 n + 1 - 53) = step
  have hrounded : roundQuotient n step ≤ n / step + 1 := by
    unfold roundQuotient
    dsimp only
    split <;> omega
  calc roundQuotient n step * step
      ≤ (n / step + 1) * step := Nat.mul_le_mul_right step hrounded
    _ = n / step * step + step := Nat.succ_mul _ _
    _ ≤ n + step := Nat.add_le_add_right (Nat.div_mul_le_self n step) step

end Text.Double

theorem Text.Scaled.isFinite_ofNat {n : Nat} (hn : n ≤ Quantity.maxWord) :
    (ofNat n).isFinite = true := by
  have hbound : n < 2 ^ 64 := Nat.lt_succ_of_le hn
  rw [ofNat_of_lt hbound]
  rcases Nat.eq_zero_or_pos n with rfl | hpositive
  · rfl
  · have hlog : Nat.log2 n < 64 := (Nat.log2_lt (Nat.ne_of_gt hpositive)).mpr hbound
    have hstep : Nat.pow 2 (Nat.log2 n + 1 - 53) ≤ 2 ^ 11 :=
      Nat.pow_le_pow_right (by decide) (by omega)
    have hfinite : Double.nearest n < Double.infinityFrom :=
      calc Double.nearest n
          ≤ n + Nat.pow 2 (Nat.log2 n + 1 - 53) := Double.nearest_le n
        _ < 2 ^ 64 + 2 ^ 11 := Nat.add_lt_add_of_lt_of_le hbound hstep
        _ < Double.infinityFrom := by decide +kernel
    have hone : Double.nearest 1 = 1 := by decide
    simp [isFinite, hone, hfinite]

/-! ## Records that are taken in as a whole -/

namespace Json

/-- A value that can be held while the tree around it is taken in, and that is no tree itself. -/
structure Held (json : Json) : Prop where
  sound : json.isSound = true
  flat : json.depth = 0

theorem held_ofText (text : String) : (ofText text).Held :=
  ⟨rfl, rfl⟩

theorem held_ofNat {n : Nat} (hn : n ≤ Quantity.maxWord) : (ofNat n).Held :=
  ⟨Text.Scaled.isFinite_ofNat hn, rfl⟩

variable {members : List (String × Json)} {name : String}

theorem isSound_record (hmembers : ∀ member ∈ members, member.2.Held) :
    (record members).isSound = true := by
  show membersAreSound (members.map _) = true
  induction members with
  | nil => rfl
  | cons member members ih =>
      obtain ⟨hmember, hmembers⟩ := List.forall_mem_cons.mp hmembers
      simp [membersAreSound, hmember.sound, ih hmembers]

theorem depth_record (hmembers : ∀ member ∈ members, member.2.Held) :
    (record members).depth = 1 := by
  show depthOfMembers (members.map _) + 1 = 1
  induction members with
  | nil => rfl
  | cons member members ih =>
      obtain ⟨hmember, hmembers⟩ := List.forall_mem_cons.mp hmembers
      simp only [List.map_cons, depthOfMembers, hmember.flat, Nat.zero_max]
      exact ih hmembers

theorem filter_ne_name (hname : name ∉ members.map Prod.fst) :
    (members.map fun (name, value) => (some name, value)).filter
        (fun (other, _) => other != some name) =
      members.map fun (name, value) => (some name, value) := by
  refine List.filter_eq_self.mpr fun entry hentry => ?_
  obtain ⟨member, hmember, rfl⟩ := List.mem_map.mp hentry
  have hother : member.1 ≠ name := by
    rintro rfl
    exact hname (List.mem_map_of_mem hmember)
  simpa using hother

end Json

namespace Event

open Json (record ofText Held)

variable {front back : List (String × Json)} {event : Event}

/-- What holds of the kind and of all other members holds of all. -/
theorem forall_mem_tagged {kind : String} {holds : Json → Prop} (hkind : holds (ofText kind))
    (hmembers : ∀ member ∈ front ++ back, holds member.2) :
    ∀ member ∈ front ++ ("type", ofText kind) :: back, holds member.2 := by
  intro member hmember
  rcases List.mem_cons.mp (List.perm_middle.mem_iff.mp hmember) with rfl | hmember
  · exact hkind
  · exact hmembers member hmember

/-- The kind is found wherever it stands, and the other members remain in their order. -/
theorem untagged?_record (kind : String)
    (hnodup : ("type" :: (front ++ back).map Prod.fst).Nodup) :
    untagged? (record (front ++ ("type", ofText kind) :: back)) =
      some (kind, record (front ++ back)) := by
  have htag : ("type", ofText kind) ∈ front ++ ("type", ofText kind) :: back := by simp
  have hmiddle : ((front ++ ("type", ofText kind) :: back).map Prod.fst).Nodup := by
    rw [List.map_append] at hnodup ⊢
    exact List.perm_middle.nodup_iff.mpr hnodup
  obtain ⟨hfront, hback⟩ : "type" ∉ front.map Prod.fst ∧ "type" ∉ back.map Prod.fst := by
    simpa [not_or] using (List.nodup_cons.mp hnodup).1
  unfold untagged? record
  dsimp only
  rw [Json.valuesOf_of_mem hmiddle htag]
  simp [Json.text?, ofText, Json.filter_ne_name hfront, Json.filter_ne_name hback]

/-! ## Events -/

/-- Whether an event carries an amount. -/
def carriesAmount : Event → Bool
  | feesClaimed .. | rewardPaid .. | rewardsNotified .. => true
  | _ => false

/-- Every number of an event is in the range of its kind. -/
def InRange : Event → Prop
  | periodClosed id => id ≤ Quantity.maxWord
  | feesClaimed _ fees rewards => fees ≤ Quantity.maxAmount ∧ rewards ≤ Quantity.maxAmount
  | rewardPaid _ amount | rewardsNotified amount _ => amount ≤ Quantity.maxAmount
  | periodImported slot id => slot ≤ Quantity.maxWord ∧ id ≤ Quantity.maxWord
  | delegateApproved _ _ | delegateRemoved _ _ => True

theorem nodup_names (event : Event) : ("type" :: event.members.map Prod.fst).Nodup := by
  cases event <;> simp [members]

theorem plain_members (event : Event) : ∀ member ∈ event.members, member.2.Plain := by
  cases event <;> simp [members, Json.Plain, Json.ofNat, (Account.survives _).plain]

theorem held_members (hrange : event.InRange) (hnone : event.carriesAmount = false) :
    ∀ member ∈ event.members, member.2.Held := by
  cases event with
  | periodClosed id => simpa [members] using Json.held_ofNat hrange
  | periodImported slot id =>
      simpa [members] using ⟨Json.held_ofNat hrange.1, Json.held_ofNat hrange.2⟩
  | delegateApproved owner delegate | delegateRemoved owner delegate =>
      simpa [members] using ⟨Json.held_ofText owner.hex, Json.held_ofText delegate.hex⟩
  | feesClaimed | rewardPaid | rewardsNotified => cases hnone

theorem ofPair?_record (make : Account → Account → Event) (owner delegate : Account) :
    ofPair? make (record [("owner", owner.toJson), ("delegate", delegate.toJson)]) =
      some (make owner delegate) := by
  unfold ofPair?
  rw [Json.fields?_record ["owner", "delegate"] rfl (by decide)]
  simp [Json.required, (Account.survives _).read_write]

/-- The members of an event give it back, unless an amount is among them. -/
theorem ofMembers?_record (hrange : event.InRange) :
    ofMembers? event.kind (record event.members) =
      if event.carriesAmount then none else some event := by
  cases event with
  | periodClosed id =>
      have hid := Json.survives_word hrange
      simp only [kind, ofMembers?, members]
      rw [Json.fields?_record ["fee_period_id"] rfl (by decide)]
      simp [Json.required, hid.read_write, carriesAmount]
  | periodImported slot id =>
      have hslot := Json.survives_word hrange.1
      have hid := Json.survives_word hrange.2
      simp only [kind, ofMembers?, members]
      rw [Json.fields?_record ["slot", "fee_period_id"] rfl (by decide)]
      simp [Json.required, hslot.read_write, hid.read_write, carriesAmount]
  | delegateApproved owner delegate => exact ofPair?_record delegateApproved owner delegate
  | delegateRemoved owner delegate => exact ofPair?_record delegateRemoved owner delegate
  | feesClaimed | rewardPaid | rewardsNotified => rfl

theorem ofJson?_tagged (hrange : event.InRange) (hmembers : event.members = front ++ back) :
    ofJson? (record (front ++ ("type", ofText event.kind) :: back)) =
      if event.carriesAmount then none else some event := by
  have huntagged := untagged?_record event.kind (hmembers ▸ event.nodup_names)
  rw [← hmembers] at huntagged
  have hread := ofMembers?_record hrange
  unfold ofJson?
  cases hamount : event.carriesAmount with
  | true =>
      rw [hamount] at hread
      split
      · simp [huntagged, hread]
      · rfl
  | false =>
      have hheld : ∀ member ∈ front ++ ("type", ofText event.kind) :: back, member.2.Held :=
        forall_mem_tagged (Json.held_ofText event.kind) (hmembers ▸ held_members hrange hamount)
      have hdepth : (record (front ++ ("type", ofText event.kind) :: back)).depth ≤ maxDepth := by
        rw [Json.depth_record hheld]
        decide
      rw [if_pos ⟨Json.isSound_record hheld, hdepth⟩]
      rw [hamount] at hread
      simp [huntagged, hread]

/-- The text of an event is read back as the event if it carries no amount, and not at all if it
does.  This is so wherever the kind stands among the members. -/
theorem read_tagged (event : Event) (hrange : event.InRange) :
    (Json.parse? event.toJson.compact).bind ofJson? =
        (if event.carriesAmount then none else some event) ∧
      ∀ front back, event.members = front ++ back →
        (Json.parse? (record (front ++ ("type", ofText event.kind) :: back)).compact).bind ofJson? =
          if event.carriesAmount then none else some event := by
  have htagged : ∀ front back, event.members = front ++ back →
      (Json.parse? (record (front ++ ("type", ofText event.kind) :: back)).compact).bind ofJson? =
        if event.carriesAmount then none else some event := by
    intro front back hmembers
    have hplain : (record (front ++ ("type", ofText event.kind) :: back)).Plain :=
      Json.plain_record <|
        forall_mem_tagged (Json.survives_text event.kind).plain (hmembers ▸ event.plain_members)
    rw [Json.parse?_compact hplain]
    exact ofJson?_tagged hrange hmembers
  exact ⟨htagged [] event.members rfl, htagged⟩

/-- The import of a period is read back although its kind stands between slot and period. -/
theorem read_tagged_periodImported :
    (periodImported 3 Quantity.maxWord).InRange ∧
      (Json.parse? (record [("slot", Json.ofNat 3), ("type", ofText "fee_period_imported"),
          ("fee_period_id", Json.ofNat Quantity.maxWord)]).compact).bind ofJson? =
        some (periodImported 3 Quantity.maxWord) := by
  have hrange : (periodImported 3 Quantity.maxWord).InRange := ⟨by decide, by decide⟩
  exact ⟨hrange, (read_tagged _ hrange).2 [("slot", Json.ofNat 3)]
    [("fee_period_id", Json.ofNat Quantity.maxWord)] rfl⟩

/-- The smallest inflow is not read back. -/
theorem inflow_not_read_back :
    (rewardsNotified 1 true).InRange ∧
      (Json.parse? (rewardsNotified 1 true).toJson.compact).bind ofJson? = none := by
  have hplain : (rewardsNotified 1 true).toJson.Plain := by
    simp [toJson, members, record, Json.Plain, Json.PlainMembers, Json.ofNat, ofText]
  refine ⟨show 1 ≤ Quantity.maxAmount by decide, ?_⟩
  simp only [Json.parse?_compact hplain, Option.bind_some]
  unfold ofJson?
  split
  · rfl
  · rfl

end Event

end FeeDistribution
