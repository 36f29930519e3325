import FeeDistribution.Json.Record
import FeeDistribution.Json.Scalar
import FeeDistribution.Proofs.JsonTrees

/-!
# Values are read from the trees that they write

A value survives if its tree is plain and its reader inverts its writer there (`Survives`).  Numbers
do in their range, texts always, lists and optional values if what they hold does.  A record of
different names is taken apart into the values of its members, in order (`fields?_record`).
-/

namespace FeeDistribution.Json

variable {α : Type} {write : α → Json} {read : Json → Option α} {value : α}

/-- The value can be written as text and read back. -/
structure Survives (write : α → Json) (read : Json → Option α) (value : α) : Prop where
  plain : (write value).Plain
  read_write : read (write value) = some value

/-- The text of a value that survives is read back as that value. -/
theorem Survives.parse_bind (hsurvives : Survives write read value) :
    (parse? (write value).compact).bind read = some value := by
  rw [parse?_compact hsurvives.plain]
  exact hsurvives.read_write

/-! ## Scalars -/

theorem survives_nat {bound n : Nat} (hn : n ≤ bound) : Survives ofNat (nat? bound) n where
  plain := trivial
  read_write := if_pos hn

theorem survives_amount {amount : Amount} (hamount : amount ≤ Quantity.maxAmount) :
    Survives ofNat amount? amount :=
  survives_nat hamount

theorem survives_word {n : Nat} (hn : n ≤ Quantity.maxWord) : Survives ofNat word? n :=
  survives_nat hn

theorem survives_timestamp {time : Timestamp} (hearliest : Quantity.earliest ≤ time)
    (hlatest : time ≤ Quantity.latest) : Survives ofInt timestamp? time where
  plain := trivial
  read_write := by
    by_cases hnegative : time < 0
    · have hmagnitude : -(time.natAbs : Int) = time := by
        rw [Int.ofNat_natAbs_of_nonpos (Int.le_of_lt hnegative), Int.neg_neg]
      have hrange : time.natAbs ≠ 0 ∧ Quantity.earliest ≤ time :=
        ⟨Int.natAbs_ne_zero.mpr (Int.ne_of_lt hnegative), hearliest⟩
      simp only [ofInt, timestamp?, decide_eq_true hnegative, hmagnitude, if_pos hrange]
    · have hmagnitude : (time.natAbs : Int) = time := Int.natAbs_of_nonneg (Int.not_lt.mp hnegative)
      simp only [ofInt, timestamp?, decide_eq_false hnegative, hmagnitude, if_pos hlatest]

theorem survives_text (text : String) : Survives ofText text? text where
  plain := rfl
  read_write := rfl

/-! ## Lists and optional values -/

theorem mapM_map_eq_some {β γ : Type} {items : List α} {write : α → β} {read : β → Option γ}
    {result : α → γ} (hitems : ∀ item ∈ items, read (write item) = some (result item)) :
    (items.map write).mapM read = some (items.map result) := by
  induction items with
  | nil => rfl
  | cons item items ih =>
      obtain ⟨hitem, hitems⟩ := List.forall_mem_cons.mp hitems
      simp [hitem, ih hitems]

theorem mapM_map_self {β : Type} {items : List α} {write : α → β} {read : β → Option α}
    (hitems : ∀ item ∈ items, read (write item) = some item) :
    (items.map write).mapM read = some items := by
  have hread : (items.map write).mapM read = some (items.map id) := mapM_map_eq_some hitems
  rwa [List.map_id] at hread

theorem plainItems_map {items : List α} (hitems : ∀ item ∈ items, (write item).Plain) :
    PlainItems (items.map write) := by
  induction items with
  | nil => trivial
  | cons item items ih =>
      obtain ⟨hitem, hitems⟩ := List.forall_mem_cons.mp hitems
      exact ⟨hitem, ih hitems⟩

theorem survives_list (items : List α) (hitems : ∀ item ∈ items, Survives write read item) :
    Survives (ofList write) (list? read) items where
  plain := plainItems_map fun item hitem => (hitems item hitem).plain
  read_write := mapM_map_self fun item hitem => (hitems item hitem).read_write

theorem survives_option (value : Option α) (hvalue : ∀ inner ∈ value, Survives write read inner)
    (hnull : ∀ inner, write inner ≠ .null) : Survives (ofOption write) (option? read) value := by
  cases value with
  | none => exact ⟨trivial, rfl⟩
  | some inner =>
      obtain ⟨hplain, hread⟩ := hvalue inner rfl
      refine ⟨hplain, ?_⟩
      show option? read (write inner) = some (some inner)
      unfold option?
      split
      · exact absurd ‹_› (hnull inner)
      · rw [hread]
        rfl

/-! ## Records -/

variable {members : List (String × Json)}

theorem plain_record (hmembers : ∀ member ∈ members, member.2.Plain) : (record members).Plain := by
  show PlainMembers (members.map _)
  induction members with
  | nil => trivial
  | cons member members ih =>
      obtain ⟨hmember, hmembers⟩ := List.forall_mem_cons.mp hmembers
      exact ⟨rfl, hmember, ih hmembers⟩

theorem valuesOf_eq_nil {name : String} (hname : name ∉ members.map Prod.fst) :
    valuesOf (members.map fun (name, value) => (some name, value)) name = [] := by
  induction members with
  | nil => rfl
  | cons member members ih =>
      rw [List.map_cons, List.mem_cons, not_or] at hname
      have hother : (some member.1 == some name) = false := by simpa using Ne.symm hname.1
      have hrest := ih hname.2
      simp only [valuesOf, List.map_cons, List.filter_cons, hother, Bool.false_eq_true, if_false]
        at hrest ⊢
      exact hrest

/-- Where names differ, a name has one value. -/
theorem valuesOf_of_mem {name : String} {value : Json} (hnodup : (members.map Prod.fst).Nodup)
    (hmember : (name, value) ∈ members) :
    valuesOf (members.map fun (name, value) => (some name, value)) name = [value] := by
  induction members with
  | nil => cases hmember
  | cons member members ih =>
      rw [List.map_cons, List.nodup_cons] at hnodup
      rcases List.mem_cons.mp hmember with rfl | hmember
      · have hrest := valuesOf_eq_nil hnodup.1
        simp only [valuesOf, List.map_cons, List.filter_cons, beq_self_eq_true, if_true]
          at hrest ⊢
        rw [hrest]
      · have hother : (some member.1 == some name) = false := by
          have hname : name ∈ members.map Prod.fst := List.mem_map_of_mem hmember
          simp only [Option.some_beq_some, beq_eq_false_iff_ne]
          rintro rfl
          exact hnodup.1 hname
        have hrest := ih hnodup.2 hmember
        simp only [valuesOf, List.map_cons, List.filter_cons, hother, Bool.false_eq_true,
          if_false] at hrest ⊢
        exact hrest

theorem uniqueValue?_of_mem {name : String} {value : Json} (hnodup : (members.map Prod.fst).Nodup)
    (hmember : (name, value) ∈ members) :
    uniqueValue? (members.map fun (name, value) => (some name, value)) name =
      some (some value) := by
  rw [uniqueValue?, valuesOf_of_mem hnodup hmember]

/-- The values of the members, in the order of their names. -/
theorem fields?_record (names : List String) (hnames : members.map Prod.fst = names)
    (hnodup : names.Nodup) : (record members).fields? names = some (members.map (some ·.2)) := by
  subst hnames
  have hnamed : (members.map fun (name, value) => (some name, value)).all
      (fun member => member.1.isSome) = true := by simp
  have hvalues : (members.map Prod.fst).mapM
      (uniqueValue? (members.map fun (name, value) => (some name, value))) =
        some (members.map (some ·.2)) :=
    mapM_map_eq_some fun member hmember => uniqueValue?_of_mem hnodup hmember
  exact (if_pos hnamed).trans hvalues

end FeeDistribution.Json
