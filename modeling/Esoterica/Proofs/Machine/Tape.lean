import Esoterica.Machine.Tape
import Esoterica.Proofs.Checked

/-!
# Tapes count in integers

A tape forgets how often its pointer has gone around and how often a cell has wrapped, and nothing
else. After any actions the pointer is where an endless tape would have it, modulo the length, and a
cell has what was last stored in it and has been added to it since, modulo 256.

Actions come with amounts of 64 bits, and the sums and remainders on the way can be formed in 64
bits as well. `act?` does an action in this way and gives up where a result would be out of range.
It never does, even for the least and the greatest amount, if the tape has at most `2 ^ 62` cells.
How remainders are formed does not matter, as long as they are those of the integers.
-/

namespace Esoterica

namespace Tape

/-! ### Actions -/

/-- What can be done to a tape, with an amount of 64 bits. -/
inductive Action where
  | move (amount : Int64)
  | add (amount : Int64)
  | store (value : Int64)
deriving DecidableEq

namespace Action

def apply (tape : Tape) : Action → Tape
  | move amount => tape.move amount.toInt
  | add amount => tape.add amount.toInt
  | store value => tape.store value.toInt

/-- How far the pointer goes. -/
def distance : Action → Int
  | move amount => amount.toInt
  | add _ | store _ => 0

/-- How much is added to the cell under the pointer. -/
def increment : Action → Int
  | add amount => amount.toInt
  | move _ | store _ => 0

end Action

/-- The tape after some actions, done in turn. -/
def perform (tape : Tape) (actions : List Action) : Tape :=
  actions.foldl Action.apply tape

/-- How far the pointer goes in all. -/
def travel : List Action → Int
  | [] => 0
  | action :: later => action.distance + travel later

/-- How much is added to a cell in all, by actions that begin at a position of an endless tape. -/
def added (length cell : Nat) (position : Int) : List Action → Int
  | [] => 0
  | action :: later =>
    (if position % length = cell then action.increment else 0) +
      added length cell (position + action.distance) later

/-- Actions that begin at a position of an endless tape store nothing in a cell. -/
def Unset (length cell : Nat) (position : Int) (actions : List Action) : Prop :=
  ∀ earlier value later, actions = earlier ++ .store value :: later →
    (position + travel earlier) % length ≠ cell

/-- There is such a cell, and it has the value modulo 256. -/
def Holds (tape : Tape) (cell : Nat) (value : Int) : Prop :=
  ∃ byte, tape.cells[cell]? = some byte ∧ (byte.toNat : Int) = value % 256

section steps

variable {tape : Tape} {cell : Nat} {amount value : Int}

theorem length_pos (tape : Tape) : 0 < tape.length :=
  Nat.zero_lt_of_lt tape.pointer_lt

theorem toNat_cellOf (value : Int) : ((cellOf value).toNat : Int) = value % 256 := by
  have nonneg := Int.emod_nonneg value (show (256 : Int) ≠ 0 by decide)
  have below := Int.emod_lt_of_pos value (show (0 : Int) < 256 by decide)
  rw [cellOf, UInt8.toNat_ofNat', Nat.mod_eq_of_lt (by omega), Int.toNat_of_nonneg nonneg]

theorem landing_emod_nonneg (tape : Tape) (amount : Int) :
    0 ≤ tape.landing amount % tape.length :=
  Int.emod_nonneg _ (Int.ne_of_gt (Int.natCast_pos.mpr tape.length_pos))

theorem pointer_move (tape : Tape) (amount : Int) :
    ((tape.move amount).pointer : Int) = (tape.pointer + amount) % tape.length := by
  calc ((tape.move amount).pointer : Int) = tape.landing amount % tape.length :=
        Int.toNat_of_nonneg (tape.landing_emod_nonneg amount)
    _ = (tape.pointer + amount) % tape.length := Int.add_emod_emod _ _ _

theorem ext {tape other : Tape} (cells : tape.cells = other.cells)
    (pointer : (tape.pointer : Int) = other.pointer) : tape = other := by
  cases tape
  cases other
  cases cells
  cases pointer
  rfl

theorem move_move (tape : Tape) (first second : Int) :
    (tape.move first).move second = tape.move (first + second) := by
  have length : (tape.move first).length = tape.length := rfl
  refine ext rfl ?_
  rw [pointer_move, pointer_move, pointer_move, length, Int.emod_add_emod, Int.add_assoc]

theorem move_zero (tape : Tape) : tape.move 0 = tape := by
  have inside : tape.pointer < tape.length := tape.pointer_lt
  refine ext rfl ?_
  rw [pointer_move, Int.add_zero, Int.emod_eq_of_lt (by omega) (by omega)]

/-- What a cell has already can be stored in it. -/
theorem store_cell (tape : Tape) : tape.store tape.cell.toNat = tape := by
  have same : cellOf tape.cell.toNat = tape.cell := by
    have below := tape.cell.toNat_lt
    have value := toNat_cellOf tape.cell.toNat
    apply UInt8.toNat_inj.mp
    omega
  refine ext ?_ rfl
  calc (tape.store tape.cell.toNat).cells
      = tape.cells.set tape.pointer tape.cell tape.pointer_lt :=
        congrArg (tape.cells.set tape.pointer · tape.pointer_lt) same
    _ = tape.cells := Array.set_getElem_self tape.pointer_lt

theorem length_store (tape : Tape) (value : Int) : (tape.store value).length = tape.length :=
  Array.size_set tape.pointer_lt

theorem holds_store (tape : Tape) (value : Int) : (tape.store value).Holds tape.pointer value :=
  ⟨cellOf value, by simp [store], toNat_cellOf value⟩

theorem toNat_cell_store (tape : Tape) (value : Int) :
    ((tape.store value).cell.toNat : Int) = value % 256 := by
  have stored : (tape.store value).cell = cellOf value := by simp [cell, store]
  rw [stored, toNat_cellOf]

/-- A cell that is not under the pointer stays. -/
theorem cells_store_of_ne (other : cell ≠ tape.pointer) (value : Int) :
    (tape.store value).cells[cell]? = tape.cells[cell]? := by
  rw [store, Array.getElem?_set, if_neg other.symm]

theorem holds_cell (tape : Tape) : tape.Holds tape.pointer tape.cell.toNat := by
  have below := tape.cell.toNat_lt
  refine ⟨tape.cell, Array.getElem?_eq_getElem tape.pointer_lt, ?_⟩
  omega

theorem Holds.congr {other : Int} (holds : tape.Holds cell value)
    (same : value % 256 = other % 256) : tape.Holds cell other := by
  rcases holds with ⟨byte, stands, isValue⟩
  exact ⟨byte, stands, isValue.trans same⟩

theorem Holds.unique {other : Int} (holds : tape.Holds cell value)
    (holdsOther : tape.Holds cell other) : value % 256 = other % 256 := by
  rcases holds with ⟨byte, stands, isValue⟩
  rcases holdsOther with ⟨sameByte, standsToo, isOther⟩
  cases stands.symm.trans standsToo
  exact isValue.symm.trans isOther

theorem Holds.add (holds : tape.Holds tape.pointer value) (amount : Int) :
    (tape.add amount).Holds tape.pointer (value + amount) := by
  have same := holds.unique tape.holds_cell
  apply (tape.holds_store (tape.cell.toNat + amount % 256)).congr
  rw [Int.add_emod_emod, Int.add_emod, ← same, ← Int.add_emod]

/-- A cell in which nothing is stored gets what is added to it. -/
theorem Holds.apply {position : Int} (holds : tape.Holds cell value)
    (here : (tape.pointer : Int) = position % tape.length) (action : Action)
    (unset : ∀ stored, action = .store stored → position % tape.length ≠ cell) :
    (action.apply tape).Holds cell
      (value + if position % tape.length = cell then action.increment else 0) := by
  by_cases under : cell = tape.pointer
  · subst under
    rw [if_pos here.symm]
    cases action with
    | move amount =>
        rw [Action.increment, Int.add_zero]
        exact holds
    | add amount => exact holds.add amount.toInt
    | store stored => exact absurd here.symm (unset stored rfl)
  · rw [if_neg (by omega), Int.add_zero]
    cases action with
    | move amount => exact holds
    | add amount | store amount =>
        rcases holds with ⟨byte, stands, isValue⟩
        exact ⟨byte, (cells_store_of_ne under _).trans stands, isValue⟩

theorem length_apply (tape : Tape) (action : Action) :
    (action.apply tape).length = tape.length := by
  cases action with
  | move amount => rfl
  | add amount | store amount => exact tape.length_store _

theorem pointer_apply {position : Int} (here : (tape.pointer : Int) = position % tape.length)
    (action : Action) :
    ((action.apply tape).pointer : Int) = (position + action.distance) % tape.length := by
  cases action with
  | move amount =>
      exact (tape.pointer_move amount.toInt).trans (by rw [here, Int.emod_add_emod]; rfl)
  | add amount | store amount => exact here.trans (by rw [Action.distance, Int.add_zero])

end steps

/-! ### Runs -/

section runs

variable {tape : Tape} {cell length : Nat} {position value : Int} {actions : List Action}

theorem length_perform (tape : Tape) (actions : List Action) :
    (tape.perform actions).length = tape.length := by
  induction actions generalizing tape with
  | nil => rfl
  | cons action later ih => exact (ih (action.apply tape)).trans (tape.length_apply action)

theorem pointer_perform (here : (tape.pointer : Int) = position % tape.length)
    (actions : List Action) :
    ((tape.perform actions).pointer : Int) = (position + travel actions) % tape.length := by
  induction actions generalizing tape position with
  | nil => exact here.trans (by rw [travel, Int.add_zero])
  | cons action later ih =>
      have next := pointer_apply here action
      rw [← tape.length_apply action] at next ⊢
      rw [travel, ← Int.add_assoc]
      exact ih next

theorem unset_nil : Unset length cell position [] := by
  intro earlier stored later split
  simp at split

theorem unset_cons_iff {action : Action} :
    Unset length cell position (action :: actions) ↔
      (∀ stored, action = .store stored → position % length ≠ cell) ∧
        Unset length cell (position + action.distance) actions := by
  constructor
  · intro unset
    refine ⟨?_, ?_⟩
    · rintro stored rfl
      simpa [travel] using unset [] stored actions rfl
    · rintro earlier stored later rfl
      have elsewhere := unset (action :: earlier) stored later rfl
      rwa [travel, ← Int.add_assoc] at elsewhere
  · rintro ⟨head, tail⟩ earlier stored later split
    cases earlier with
    | nil =>
        cases split
        simpa [travel] using head stored rfl
    | cons first rest =>
        cases split
        rw [travel, ← Int.add_assoc]
        exact tail rest stored later rfl

theorem Holds.perform (holds : tape.Holds cell value)
    (here : (tape.pointer : Int) = position % tape.length)
    (unset : Unset tape.length cell position actions) :
    (tape.perform actions).Holds cell (value + added tape.length cell position actions) := by
  induction actions generalizing tape position value with
  | nil =>
      rw [added, Int.add_zero]
      exact holds
  | cons action later ih =>
      have next := pointer_apply here action
      rcases unset_cons_iff.mp unset with ⟨unsetHere, unsetLater⟩
      have holdsNext := holds.apply here action unsetHere
      rw [added, ← Int.add_assoc]
      rw [← tape.length_apply action] at next holdsNext unsetLater ⊢
      exact ih holdsNext next unsetLater

theorem perform_append (tape : Tape) (earlier later : List Action) :
    tape.perform (earlier ++ later) = (tape.perform earlier).perform later :=
  List.foldl_append

/-- What is stored in a cell and never replaced there is the start of its count. -/
theorem holds_perform_of_store (stored : Int64) {earlier later : List Action}
    (here : (tape.pointer : Int) = position % tape.length)
    (under : (position + travel earlier) % tape.length = cell)
    (unset : Unset tape.length cell (position + travel earlier) later) :
    (tape.perform (earlier ++ .store stored :: later)).Holds cell
      (stored.toInt + added tape.length cell (position + travel earlier) later) := by
  have there := pointer_perform here earlier
  rw [perform_append]
  rw [← length_perform tape earlier] at there under unset ⊢
  generalize tape.perform earlier = reached at there under unset ⊢
  generalize position + travel earlier = place at there under unset ⊢
  have isCell : reached.pointer = cell := by omega
  subst isCell
  have storedThere := reached.holds_store stored.toInt
  have pointer : ((reached.store stored.toInt).pointer : Int) = place % reached.length := there
  rw [← reached.length_store stored.toInt] at pointer unset ⊢
  exact storedThere.perform pointer unset

end runs

/-! ### Actions in 64 bits -/

/-- The tape with its pointer at a place, if there is a cell. -/
def point? (tape : Tape) (place : Int64) : Option Tape :=
  if inside : 0 ≤ place.toInt ∧ place.toInt.toNat < tape.cells.size then
    some { tape with pointer := place.toInt.toNat, pointer_lt := inside.2 }
  else
    none

/-- The tape with a value in the cell under the pointer, if it fits there. -/
def put? (tape : Tape) (value : Int64) : Option Tape :=
  if 0 ≤ value.toInt ∧ value.toInt < 256 then
    some {
      cells := tape.cells.set tape.pointer (.ofNat value.toInt.toNat) tape.pointer_lt
      pointer := tape.pointer
      pointer_lt := by simpa using tape.pointer_lt }
  else
    none

/-- The tape after an action, if all results on the way are in range. -/
def act? (floorMod? : Int64 → Int64 → Option Int64) (tape : Tape) : Action → Option Tape
  | .move amount => do
    let length ← Checked.ofInt? tape.length
    let pointer ← Checked.ofInt? tape.pointer
    let step ← floorMod? amount length
    let landing ← Checked.add? pointer step
    let place ← floorMod? landing length
    tape.point? place
  | .add amount => do
    let cell ← Checked.ofInt? tape.cell.toNat
    let increment ← floorMod? amount 256
    let sum ← Checked.add? cell increment
    let value ← floorMod? sum 256
    tape.put? value
  | .store value => do
    let value ← floorMod? value 256
    tape.put? value

theorem put?_eq (tape : Tape) {word : Int64} {value : Int} (isValue : word.toInt = value % 256) :
    tape.put? word = some (tape.store value) := by
  have nonneg := Int.emod_nonneg value (show (256 : Int) ≠ 0 by decide)
  have below := Int.emod_lt_of_pos value (show (0 : Int) < 256 by decide)
  rw [put?, if_pos (by omega)]
  simp only [isValue]
  rfl

theorem point?_eq (tape : Tape) {place : Int64} {amount : Int}
    (isPlace : place.toInt = tape.landing amount % tape.length) :
    tape.point? place = some (tape.move amount) := by
  have inside := (tape.move amount).pointer_lt
  have nonneg := tape.landing_emod_nonneg amount
  rw [point?, dif_pos ⟨by omega, by rw [isPlace]; exact inside⟩]
  simp only [isPlace]
  rfl

section checked

variable {floorMod? : Int64 → Int64 → Option Int64} (isFloorMod : Checked.IsFloorMod floorMod?)

include isFloorMod

/-- No action overflows on a tape that is not too long. -/
theorem act?_eq {tape : Tape} (addressable : tape.length ≤ 0x4000000000000000) (action : Action) :
    act? floorMod? tape action = some (action.apply tape) := by
  have bytes : (256 : Int64).toInt = 256 := rfl
  cases action with
  | move amount =>
      have positive := tape.length_pos
      have inside : tape.pointer < tape.length := tape.pointer_lt
      obtain ⟨length, hasLength, isLength⟩ :=
        Checked.exists_ofInt? tape.length (by omega) (by omega)
      obtain ⟨pointer, hasPointer, isPointer⟩ :=
        Checked.exists_ofInt? tape.pointer (by omega) (by omega)
      obtain ⟨step, hasStep, isStep⟩ := isFloorMod amount length (by omega)
      have nonneg := Int.emod_nonneg amount.toInt (b := length.toInt) (by omega)
      have below := Int.emod_lt_of_pos amount.toInt (b := length.toInt) (by omega)
      obtain ⟨landing, hasLanding, isLanding⟩ :
          ∃ landing, Checked.add? pointer step = some landing ∧
            landing.toInt = pointer.toInt + step.toInt :=
        Checked.exists_ofInt? _ (by omega) (by omega)
      obtain ⟨place, hasPlace, isPlace⟩ := isFloorMod landing length (by omega)
      simp only [act?, hasLength, hasPointer, hasStep, hasLanding, hasPlace, Option.bind_eq_bind,
        Option.bind_some]
      apply tape.point?_eq
      rw [isPlace, isLanding, isStep, isPointer, isLength]
      rfl
  | add amount =>
      have small := tape.cell.toNat_lt
      obtain ⟨cell, hasCell, isCell⟩ :=
        Checked.exists_ofInt? tape.cell.toNat (by omega) (by omega)
      obtain ⟨increment, hasIncrement, isIncrement⟩ := isFloorMod amount 256 (by decide)
      rw [bytes] at isIncrement
      obtain ⟨sum, hasSum, isSum⟩ : ∃ sum, Checked.add? cell increment = some sum ∧
          sum.toInt = cell.toInt + increment.toInt :=
        Checked.exists_ofInt? _ (by omega) (by omega)
      obtain ⟨value, hasValue, isValue⟩ := isFloorMod sum 256 (by decide)
      simp only [act?, hasCell, hasIncrement, hasSum, hasValue, Option.bind_eq_bind,
        Option.bind_some]
      apply tape.put?_eq
      rw [isValue, isSum, isIncrement, isCell, bytes]
  | store value =>
      obtain ⟨rest, hasRest, isRest⟩ := isFloorMod value 256 (by decide)
      simp only [act?, hasRest, Option.bind_eq_bind, Option.bind_some]
      exact tape.put?_eq isRest

theorem foldlM_act? {tape : Tape} (addressable : tape.length ≤ 0x4000000000000000)
    (actions : List Action) :
    actions.foldlM (act? floorMod?) tape = some (tape.perform actions) := by
  induction actions generalizing tape with
  | nil => rfl
  | cons action later ih =>
      rw [List.foldlM_cons, act?_eq isFloorMod addressable action]
      exact ih (by rw [tape.length_apply action]; exact addressable)

end checked

/--
Whatever is done to a blank tape of at most `2 ^ 62` cells, with whatever amounts of 64 bits: no sum
and no remainder overflows, however remainders are formed. The pointer is on the tape, at the sum of
all moves modulo the length. A cell has the sum of what was added to it, modulo 256, if nothing was
stored in it, and otherwise what was last stored in it and the sum of what was added to it since.
Moving the pointer leaves all cells as they are, and adding and storing leave those that are not
under the pointer.
-/
theorem refines_integers {length : Nat} (positive : 0 < length)
    (addressable : length ≤ 0x4000000000000000) (actions : List Action) :
    let tape := (blank length positive).perform actions
    (∀ floorMod?, Checked.IsFloorMod floorMod? →
        actions.foldlM (act? floorMod?) (blank length positive) = some tape) ∧
      tape.length = length ∧ tape.pointer < length ∧
      (tape.pointer : Int) = travel actions % length ∧
      (∀ cell < length, Unset length cell 0 actions →
        tape.Holds cell (added length cell 0 actions)) ∧
      (∀ earlier stored later, actions = earlier ++ .store stored :: later →
        ∀ cell : Nat, travel earlier % length = cell → Unset length cell (travel earlier) later →
          tape.Holds cell (stored.toInt + added length cell (travel earlier) later)) ∧
      (∀ amount, (tape.move amount).cells = tape.cells) ∧
      ∀ amount cell, cell ≠ tape.pointer →
        (tape.add amount).cells[cell]? = tape.cells[cell]? ∧
          (tape.store amount).cells[cell]? = tape.cells[cell]? := by
  intro tape
  have blankLength : (blank length positive).length = length := Array.size_replicate
  have tapeLength : tape.length = length := (length_perform _ actions).trans blankLength
  have start : ((blank length positive).pointer : Int) = 0 % (blank length positive).length :=
    (Int.zero_emod _).symm
  refine ⟨fun floorMod? isFloorMod => foldlM_act? isFloorMod (by rwa [blankLength]) actions,
    tapeLength, tapeLength ▸ tape.pointer_lt, ?_, ?_, ?_, fun _ => rfl, ?_⟩
  · have pointer := pointer_perform start actions
    rwa [Int.zero_add, blankLength] at pointer
  · intro cell inside unset
    have zero : (blank length positive).Holds cell 0 := ⟨0, by simp [blank, inside], rfl⟩
    have holds := zero.perform start (by rwa [blankLength])
    rwa [Int.zero_add, blankLength] at holds
  · rintro earlier stored later rfl cell under unset
    rw [← Int.zero_add (travel earlier), ← blankLength] at under unset
    have holds := holds_perform_of_store stored start under unset
    rwa [Int.zero_add, blankLength] at holds
  · intro amount cell other
    exact ⟨cells_store_of_ne other _, cells_store_of_ne other _⟩

/--
The least and the greatest amount, on a tape of three cells: the first takes the pointer to cell 1,
where a value is stored, and the second takes it to cell 2, where nothing is.
-/
theorem refines_integers_of_extremes :
    ∃ positive : 0 < 3,
      let actions : List Action :=
        [.move Int64.minValue, .add Int64.maxValue, .store (-3), .add 5, .move Int64.maxValue,
          .add Int64.minValue, .add (-1)]
      let tape := (blank 3 positive).perform actions
      3 ≤ 0x4000000000000000 ∧
        actions.foldlM (act? Checked.floorMod?) (blank 3 positive) = some tape ∧
        tape.pointer = 2 ∧ tape.Holds 1 2 ∧ tape.Holds 2 255 ∧
        (tape.store 7).cells[1]? = tape.cells[1]? := by
  refine ⟨by decide, ?_⟩
  intro actions tape
  obtain ⟨checked, _, _, pointer, unset, stored, _, frame⟩ :=
    refines_integers (show 0 < 3 by decide) (by decide) actions
  have isPointer : tape.pointer = 2 := Int.ofNat.inj pointer
  refine ⟨by decide, checked _ Checked.isFloorMod_floorMod?, isPointer, ?_, ?_, ?_⟩
  · refine (stored [.move Int64.minValue, .add Int64.maxValue] (-3) _ rfl 1 rfl ?_).congr rfl
    simp [unset_cons_iff, unset_nil]
  · refine (unset 2 (by decide) ?_).congr rfl
    simp [actions, unset_cons_iff, unset_nil, Action.distance]
  · exact (frame 7 1 (by rw [isPointer]; decide)).2

end Tape

end Esoterica
