import Brtos.Lib.CString
import Mathlib.Tactic.IntervalCases

/-!
# Brtos.Device.Open

**`OSDevOpen`** (`device.c`). A device is opened by its name, that of its type and then one
digit, or one letter for a `GPIO`. What it opens is decided by three tests that look at the
name in different ways: the number is the first digit anywhere in it; the type is the first
whose name *begins* with all of it but the last character; and the block is taken before a
driver is looked for.

So `"U1"` opens the `UART`, `"FOO1"` takes a block that no driver knows, `"I2C1"` gets the
number 2, and `"A"` is read beyond its end (`osDevOpen_iff`).

`OSDevConfig.h` is not part of the repository: the tables are parameters here. What an open
function does to its block is its own.
-/

namespace Brtos

/-- `driver_installer_t`; `func` is an address, or `NULL`. -/
structure DriverInstaller where
  type : Nat
  func : Option Nat
  deriving DecidableEq, Repr

/-- What `OSDevConfig.h` supplies. -/
structure DeviceConfig where
  /-- `MAX_INSTALLED_DEVICES` -/
  maxInstalledDevices : Nat
  /-- `DRIVER_NAMES`; there are `END_TYPE` of them -/
  devTypes : List CString
  /-- `DRIVER_LIST` -/
  installedDevices : List DriverInstaller

/-- `OS_Device_t`. -/
structure OSDevice where
  name : Option CString
  deviceType : Nat
  driverData : Nat

/-- `OS_Device_Control_t`; `device` is an index into `BRTOSDevices`. -/
structure OSDeviceControl where
  device : Option Nat
  deviceNumber : Int8

/-- `BRTOSDevices` and `BRTOSDevControl`. -/
structure DeviceTable where
  devices : Nat → OSDevice
  devControl : Nat → OSDeviceControl

/-- The call of an open function: the entry it comes from, the index of the control block
and `option`. -/
structure OpenCall where
  driver : DriverInstaller
  block : Nat
  option : Nat
  deriving DecidableEq, Repr

/-- What `OSDevOpen` does: the block it returns, the tables, the calls, and whether a
character beyond the NUL was read. -/
structure DevOpened where
  result : Option Nat
  table : DeviceTable
  calls : List OpenCall
  overread : Bool

/-- `"GPIO"`. -/
def gpio : CString := ⟨[71, 80, 73, 79], by decide⟩

/-- `(*name >= '0') && (*name <= '9')`. -/
def isDigit (c : UInt8) : Bool := 48 ≤ c && c ≤ 57

/-- `strlen(s) - 1`, in `size_t`. -/
def lengthLessOne (s : CString) : Nat := if s.strlen = 0 then 2 ^ 32 - 1 else s.strlen - 1

namespace DeviceTable

variable (cfg : DeviceConfig) (d : DeviceTable)

/-- The search among the open devices. -/
def installed (name : CString) : Option Nat :=
  (List.range cfg.maxInstalledDevices).find? fun i =>
    match (d.devices i).name with
    | some n => name.strcmp n = 0
    | none => false

/-- The search for a free block. -/
def freeBlock : Option Nat :=
  (List.range cfg.maxInstalledDevices).find? fun i => (d.devices i).name.isNone

end DeviceTable

/-- `*name` after the search for a digit. -/
def firstDigit (name : CString) : UInt8 := (name.chars.find? isDigit).getD 0

/-- The type whose name begins like `dname`, or `END_TYPE`. -/
def DeviceConfig.matchType (cfg : DeviceConfig) (dname : CString) : Nat :=
  cfg.devTypes.findIdx fun t => dname.strncmp t (lengthLessOne dname) = 0

/-- The drivers that are called. -/
def DeviceConfig.driversOf (cfg : DeviceConfig) (type : Nat) : List DriverInstaller :=
  cfg.installedDevices.filter fun x => x.type = type && x.func.isSome

/-- The end of `OSDevOpen`: the block `index` is filled and the drivers are called. -/
def DeviceTable.take (cfg : DeviceConfig) (d : DeviceTable) (index : Nat) (dname : CString)
    (option : Nat) (deviceNumber : Int8) : DeviceTable × List OpenCall :=
  let type := cfg.matchType dname
  let drivers := cfg.driversOf type
  let device : OSDevice :=
    { name := some dname
      deviceType := if drivers = [] then (d.devices index).deviceType else type
      driverData := option }
  ({ devices := Function.update d.devices index device
     devControl := Function.update d.devControl index
       { device := some index, deviceNumber := deviceNumber } },
    drivers.map fun x => { driver := x, block := index, option := option })

/-- `OSDevOpen`; `rest` is the memory behind the name. -/
def DeviceTable.osDevOpen (cfg : DeviceConfig) (d : DeviceTable) (name : Option CString)
    (rest : Nat → UInt8) (option : Nat) : DevOpened :=
  match name with
  | none => ⟨none, d, [], false⟩
  | some dname =>
    match d.installed cfg dname with
    | some index => ⟨some index, d, [], false⟩
    | none =>
      match d.freeBlock cfg with
      | none => ⟨none, d, [], false⟩
      | some index =>
        let deviceNumber := (firstDigit dname - 48).toInt8
        if deviceNumber < 0 then
          if dname.strncmp gpio (lengthLessOne dname) ≠ 0 then ⟨none, d, [], false⟩
          else
            let x := d.take cfg index dname option (dname.charAt rest 4).toInt8
            ⟨some index, x.1, x.2, decide (dname.strlen < 4)⟩
        else
          let x := d.take cfg index dname option deviceNumber
          ⟨some index, x.1, x.2, false⟩

/-! ### What opening a device is -/

/-- `('A' <= c && c <= 'Z') || ('a' <= c && c <= 'z')`. -/
def isLetter (c : UInt8) : Bool := (65 ≤ c && c ≤ 90) || (97 ≤ c && c ≤ 122)

/-- The name of the type number `type`, and then one digit, or one letter for a `GPIO`;
`number` is that digit or letter. -/
def DeviceConfig.FullName (cfg : DeviceConfig) (name : CString) (type : Nat) (number : Int8) :
    Prop :=
  ∃ t c, cfg.devTypes[type]? = some t ∧ name.chars = t.chars ++ [c] ∧
    (isDigit c = true ∧ number = (c - 48).toInt8 ∨
      t = gpio ∧ isLetter c = true ∧ number = c.toInt8)

/-- A device with this name is open. -/
def DeviceTable.IsOpen (cfg : DeviceConfig) (d : DeviceTable) (name : CString) (i : Nat) : Prop :=
  i < cfg.maxInstalledDevices ∧ (d.devices i).name = some name

/-- A block is free. -/
def DeviceTable.IsFree (cfg : DeviceConfig) (d : DeviceTable) (i : Nat) : Prop :=
  i < cfg.maxInstalledDevices ∧ (d.devices i).name = none

/-- The block `b` has been taken, and no other, and drivers of this type have been called on
it, and no others. -/
structure Took (cfg : DeviceConfig) (d : DeviceTable) (x : DevOpened) (name : CString)
    (option b type : Nat) (number : Int8) : Prop where
  free : d.IsFree cfg b
  name : (x.table.devices b).name = some name
  data : (x.table.devices b).driverData = option
  device : (x.table.devControl b).device = some b
  number : (x.table.devControl b).deviceNumber = number
  others : ∀ i ≠ b, x.table.devices i = d.devices i ∧ x.table.devControl i = d.devControl i
  called : x.calls ≠ []
  calls : ∀ c ∈ x.calls, c.driver ∈ cfg.installedDevices ∧ c.driver.type = type ∧
    c.driver.func ≠ none ∧ c.block = b ∧ c.option = option

/-- An open device is returned. Otherwise a block is, if one is free and the name a full name;
and if none is returned, nothing has happened. -/
structure AcceptsExactly (cfg : DeviceConfig) (d : DeviceTable) (x : DevOpened) (name : CString)
    (option : Nat) : Prop where
  installed : (∃ i, d.IsOpen cfg name i) → ∃ i, d.IsOpen cfg name i ∧ x = ⟨some i, d, [], false⟩
  accepts : (¬ ∃ i, d.IsOpen cfg name i) →
    (x.result ≠ none ↔ (∃ i, d.IsFree cfg i) ∧ ∃ type number, cfg.FullName name type number)
  took : (¬ ∃ i, d.IsOpen cfg name i) → ∀ b, x.result = some b →
    ∃ type number, cfg.FullName name type number ∧ Took cfg d x name option b type number
  refuses : (¬ ∃ i, d.IsOpen cfg name i) → x.result = none → x = ⟨none, d, [], false⟩

/-- Two of the three tests agree with the name: the type is the first that begins with all of
it but the last character, and its first digit, if it has one, is its last character. -/
structure Unambiguous (cfg : DeviceConfig) (name : CString) (type : Nat) : Prop where
  first : ∀ j < type, ∀ t, cfg.devTypes[j]? = some t → ¬ name.chars.dropLast <+: t.chars
  driver : ∃ x ∈ cfg.installedDevices, x.type = type ∧ x.func ≠ none
  digit : ∀ c, name.chars.find? isDigit = some c → name.chars.getLast? = some c

/-! ### The tests -/

variable {cfg : DeviceConfig} {d : DeviceTable} {name t : CString} {type i b option : Nat}
  {number : Int8} {rest : Nat → UInt8}

/-- For a name that has a last character, `strncmp` asks for a prefix. -/
theorem strncmp_lengthLessOne (hne : name.chars ≠ []) :
    name.strncmp t (lengthLessOne name) = 0 ↔ name.chars.dropLast <+: t.chars := by
  have hlen : name.strlen ≠ 0 := fun h => hne (List.length_eq_zero_iff.mp h)
  rw [CString.strncmp_eq_zero, lengthLessOne, if_neg hlen, List.prefix_iff_eq_take,
    List.length_dropLast, List.dropLast_eq_take]
  rfl

theorem strncmp_gpio_of_empty (he : name.chars = []) :
    name.strncmp gpio (lengthLessOne name) ≠ 0 := by
  intro h
  rw [CString.strncmp_eq_zero, lengthLessOne, if_pos (by rw [CString.strlen, he]; rfl), he] at h
  cases h

theorem isDigit_not_neg {c : UInt8} (h : isDigit c = true) : ¬ (c - 48).toInt8 < 0 := by
  simp only [isDigit, Bool.and_eq_true, decide_eq_true_eq, UInt8.le_iff_toNat_le] at h
  obtain ⟨h1, h2⟩ : 48 ≤ c.toNat ∧ c.toNat ≤ 57 := h
  rw [← UInt8.ofNat_toNat (x := c)]
  interval_cases c.toNat <;> decide

/-- The number is negative where there is no digit. -/
theorem firstDigit_neg : (firstDigit name - 48).toInt8 < 0 ↔ ∀ c ∈ name.chars, isDigit c = false := by
  unfold firstDigit
  cases hf : name.chars.find? isDigit with
  | none =>
      have hno := List.find?_eq_none.mp hf
      refine iff_of_true (by decide) fun c hc => ?_
      exact Bool.eq_false_iff.mpr (hno c hc)
  | some c =>
      have hc := List.find?_some hf
      have hmem := List.mem_of_find?_eq_some hf
      refine iff_of_false (isDigit_not_neg hc) fun hno => ?_
      rw [hno c hmem] at hc
      cases hc

namespace DeviceTable

theorem installed_some (h : d.installed cfg name = some i) : d.IsOpen cfg name i := by
  have hmem := List.mem_range.mp (List.mem_of_find?_eq_some h)
  have hname := List.find?_some h
  split at hname
  · rename_i n hn
    refine ⟨hmem, hn.trans (congrArg some ?_)⟩
    exact (CString.strcmp_eq_zero.mp (of_decide_eq_true hname)).symm
  · cases hname

theorem installed_none (h : d.installed cfg name = none) : ¬ ∃ i, d.IsOpen cfg name i := by
  intro ⟨i, hi, hn⟩
  have hno := List.find?_eq_none.mp h i (List.mem_range.mpr hi)
  simp [hn, CString.strcmp_eq_zero] at hno

theorem freeBlock_some (h : d.freeBlock cfg = some i) : d.IsFree cfg i :=
  ⟨List.mem_range.mp (List.mem_of_find?_eq_some h), by simpa using List.find?_some h⟩

theorem freeBlock_none (h : d.freeBlock cfg = none) : ¬ ∃ i, d.IsFree cfg i := by
  intro ⟨i, hi, hn⟩
  have hno := List.find?_eq_none.mp h i (List.mem_range.mpr hi)
  simp [hn] at hno

end DeviceTable

theorem DeviceConfig.FullName.ne_nil (h : cfg.FullName name type number) : name.chars ≠ [] := by
  obtain ⟨t, c, -, hchars, -⟩ := h
  rw [hchars]
  exact List.append_ne_nil_of_right_ne_nil _ (List.cons_ne_nil c [])

/-- For a full name the search of the types ends at its type, or before. -/
theorem matchType_eq_iff (h : cfg.FullName name type number) : cfg.matchType name = type ↔
    ∀ j < type, ∀ t, cfg.devTypes[j]? = some t → ¬ name.chars.dropLast <+: t.chars := by
  have hne := h.ne_nil
  obtain ⟨t, c, htype, hchars, -⟩ := h
  obtain ⟨hlt, hget⟩ := List.getElem?_eq_some_iff.mp htype
  have hself : name.strncmp cfg.devTypes[type] (lengthLessOne name) = 0 := by
    refine (strncmp_lengthLessOne hne).mpr ?_
    simp only [hget, hchars, List.dropLast_concat, List.prefix_rfl]
  unfold DeviceConfig.matchType
  rw [List.findIdx_eq hlt, and_iff_right (decide_eq_true hself)]
  constructor
  · intro hno j hj t' ht'
    obtain ⟨hlt', rfl⟩ := List.getElem?_eq_some_iff.mp ht'
    rw [← strncmp_lengthLessOne hne]
    exact of_decide_eq_false (hno j hj)
  · intro hno j hj
    have hpre := hno j hj _ (List.getElem?_eq_getElem (hj.trans hlt))
    rw [← strncmp_lengthLessOne hne] at hpre
    exact decide_eq_false hpre

theorem mem_driversOf {x : DriverInstaller} :
    x ∈ cfg.driversOf type ↔ x ∈ cfg.installedDevices ∧ x.type = type ∧ x.func ≠ none := by
  simp [DeviceConfig.driversOf, Option.isSome_iff_ne_none]

theorem driversOf_ne_nil : cfg.driversOf type ≠ [] ↔
    ∃ x ∈ cfg.installedDevices, x.type = type ∧ x.func ≠ none := by
  rw [← List.length_pos_iff, List.length_pos_iff_exists_mem]
  simp only [mem_driversOf]

/-- What a full name needs so that the block that is taken is the right one. -/
theorem took_iff (hfree : d.IsFree cfg b) {n : Int8} {o : Bool} :
    Took cfg d ⟨some b, (d.take cfg b name option n).1, (d.take cfg b name option n).2, o⟩ name
        option b type number ↔
      cfg.matchType name = type ∧ cfg.driversOf type ≠ [] ∧ n = number := by
  constructor
  · intro h
    -- a driver has been called, and it is one of the type that was found
    obtain ⟨c, hc⟩ := List.exists_mem_of_ne_nil _ h.called
    obtain ⟨x, hx, rfl⟩ := List.mem_map.mp hc
    have htype : cfg.matchType name = type := by
      rw [← (h.calls _ hc).2.1]
      exact (mem_driversOf.mp hx).2.1.symm
    refine ⟨htype, htype ▸ List.ne_nil_of_mem hx, ?_⟩
    have hnum := h.number
    simpa [DeviceTable.take] using hnum
  · intro ⟨htype, hdrivers, hnum⟩
    subst htype hnum
    refine ⟨hfree, ?_, ?_, ?_, ?_, fun i hi => ⟨?_, ?_⟩, ?_, ?_⟩
    · simp [DeviceTable.take]
    · simp [DeviceTable.take]
    · simp [DeviceTable.take]
    · simp [DeviceTable.take]
    · exact Function.update_of_ne hi ..
    · exact Function.update_of_ne hi ..
    · simpa [DeviceTable.take] using hdrivers
    · intro c hc
      obtain ⟨x, hx, rfl⟩ := List.mem_map.mp hc
      obtain ⟨hmem, htype, hfunc⟩ := mem_driversOf.mp hx
      exact ⟨hmem, htype, hfunc, rfl, rfl⟩

/-- A full name without a digit is that of a `GPIO`. -/
theorem DeviceConfig.FullName.gpio_of_no_digit (h : cfg.FullName name type number)
    (hno : ∀ c ∈ name.chars, isDigit c = false) :
    ∃ c, name.chars = gpio.chars ++ [c] ∧ number = c.toInt8 := by
  obtain ⟨t, c, -, hchars, ⟨hdigit, -⟩ | ⟨rfl, -, hnum⟩⟩ := h
  · rw [hno c (by rw [hchars]; exact List.mem_append_right _ List.mem_cons_self)] at hdigit
    cases hdigit
  · exact ⟨c, hchars, hnum⟩

theorem gpio_letter_no_digit {l : UInt8} (hl : isLetter l = true) :
    ∀ c ∈ gpio.chars ++ [l], ¬ isDigit c = true := by
  intro c hc
  rcases List.mem_append.mp hc with hc | hc
  · exact (by decide +kernel : ∀ c ∈ gpio.chars, ¬ isDigit c = true) c hc
  · obtain rfl := List.mem_singleton.mp hc
    simp only [isLetter, isDigit, Bool.or_eq_true, Bool.and_eq_true, decide_eq_true_eq,
      UInt8.le_iff_toNat_le, UInt8.reduceToNat] at hl ⊢
    omega

/-- Without a digit the number is the character after `GPIO`, and that is the last one. -/
theorem DeviceConfig.FullName.number_gpio_iff (h : cfg.FullName name type number)
    (hno : ∀ c ∈ name.chars, isDigit c = false) : (name.charAt rest 4).toInt8 = number ↔
      ∀ c, name.chars.find? isDigit = some c → name.chars.getLast? = some c := by
  obtain ⟨c, hchars, hnum⟩ := h.gpio_of_no_digit hno
  have hnone : name.chars.find? isDigit = none :=
    List.find?_eq_none.mpr fun c hc => Bool.eq_false_iff.mp (hno c hc)
  have hlast : name.charAt rest 4 = c := by simp [CString.charAt, hchars, gpio]
  simp [hnone, hlast, hnum]

/-- With a digit the number is the first one, which need not be the last character. -/
theorem DeviceConfig.FullName.number_digit_iff (h : cfg.FullName name type number)
    (hneg : ¬ (firstDigit name - 48).toInt8 < 0) : (firstDigit name - 48).toInt8 = number ↔
      ∀ c, name.chars.find? isDigit = some c → name.chars.getLast? = some c := by
  obtain ⟨c, hc⟩ : ∃ c, name.chars.find? isDigit = some c := by
    by_contra hnot
    have hnone := Option.eq_none_iff_forall_ne_some.mpr fun c hc => hnot ⟨c, hc⟩
    refine hneg (firstDigit_neg.mpr fun c hc => Bool.eq_false_iff.mpr ?_)
    exact List.find?_eq_none.mp hnone c hc
  have hfirst : firstDigit name = c := by simp [firstDigit, hc]
  have hall : (∀ c', name.chars.find? isDigit = some c' → name.chars.getLast? = some c') ↔
      name.chars.getLast? = some c := by simp [hc]
  rw [hfirst, hall]
  obtain ⟨t, l, -, hchars, ⟨hdigit, hnum⟩ | ⟨rfl, hletter, -⟩⟩ := h
  · rw [hchars, List.getLast?_concat, hnum, Option.some.injEq]
    constructor
    · intro heq
      have hsub : c - 48 = l - 48 := by simpa using congrArg Int8.toUInt8 heq
      exact ((UInt8.sub_left_inj 48).mp hsub).symm
    · rintro rfl
      rfl
  · -- neither `GPIO` nor the letter has a digit
    have hmem := List.mem_of_find?_eq_some hc
    have hdigit := List.find?_some hc
    rw [hchars] at hmem
    exact absurd hdigit (gpio_letter_no_digit hletter c hmem)

/-- When a free block is returned, the full name and what was done with it are what counts. -/
theorem accepts_iff_took (hnot : ¬ ∃ i, d.IsOpen cfg name i) (hb : d.IsFree cfg b) {x : DevOpened}
    (hx : x.result = some b) : AcceptsExactly cfg d x name option ↔
      ∃ type number, cfg.FullName name type number ∧ Took cfg d x name option b type number := by
  constructor
  · exact fun h => h.took hnot b hx
  · intro ⟨type, number, hname, htook⟩
    refine ⟨fun h => absurd h hnot, fun _ => ?_, fun _ b' hb' => ?_, fun _ hnone => ?_⟩
    · exact iff_of_true (by simp [hx]) ⟨⟨b, hb⟩, type, number, hname⟩
    · rw [hx] at hb'
      cases hb'
      exact ⟨type, number, hname, htook⟩
    · rw [hx] at hnone
      cases hnone

theorem took_iff_unambiguous (hfree : d.IsFree cfg b) (h : cfg.FullName name type number) {n : Int8}
    {o : Bool} (hn : n = number ↔
      ∀ c, name.chars.find? isDigit = some c → name.chars.getLast? = some c) :
    Took cfg d ⟨some b, (d.take cfg b name option n).1, (d.take cfg b name option n).2, o⟩ name
      option b type number ↔ Unambiguous cfg name type := by
  rw [took_iff hfree, matchType_eq_iff h, driversOf_ne_nil, hn]
  exact ⟨fun ⟨hfirst, hdriver, hdigit⟩ => ⟨hfirst, hdriver, hdigit⟩,
    fun hu => ⟨hu.first, hu.driver, hu.digit⟩⟩

/-- **`OSDevOpen`** accepts exactly the configured names if and only if the device is open, or
no block is free, or the name has no digit and does not begin like `GPIO`, or it is a full name
and its type and its digit are not mistaken. -/
theorem osDevOpen_iff : AcceptsExactly cfg d (d.osDevOpen cfg (some name) rest option) name option ↔
    (∃ i, d.IsOpen cfg name i) ∨ (¬ ∃ i, d.IsFree cfg i) ∨
    ((∀ c ∈ name.chars, isDigit c = false) ∧
      (name.chars = [] ∨ ¬ name.chars.dropLast <+: gpio.chars)) ∨
    ∃ type number, cfg.FullName name type number ∧ Unambiguous cfg name type := by
  unfold DeviceTable.osDevOpen
  dsimp only
  cases hopen : d.installed cfg name with
  | some i =>
      have hi := DeviceTable.installed_some hopen
      refine iff_of_true ⟨fun _ => ⟨i, hi, rfl⟩, ?_, ?_, ?_⟩ (.inl ⟨i, hi⟩)
      all_goals exact fun hno => absurd ⟨i, hi⟩ hno
  | none =>
      have hnot := DeviceTable.installed_none hopen
      cases hfree : d.freeBlock cfg with
      | none =>
          have hfull := DeviceTable.freeBlock_none hfree
          refine iff_of_true ⟨fun h => absurd h hnot, fun _ => ?_, ?_, fun _ _ => rfl⟩
            (.inr (.inl hfull))
          · exact iff_of_false (fun h => h rfl) fun h => hfull h.1
          · intro _ b hb
            cases hb
      | some b =>
          have hb := DeviceTable.freeBlock_some hfree
          have hmany : ¬ ¬ ∃ i, d.IsFree cfg i := not_not.mpr ⟨b, hb⟩
          dsimp only
          split
          · rename_i hneg
            have hno := firstDigit_neg.mp hneg
            split
            · -- neither a digit nor a `GPIO`
              rename_i hgpio
              refine iff_of_true ⟨fun h => absurd h hnot, fun _ => ?_, ?_, fun _ _ => rfl⟩
                (.inr (.inr (.inl ⟨hno, ?_⟩)))
              · refine iff_of_false (fun h => h rfl) fun ⟨_, type, number, h⟩ => ?_
                obtain ⟨c, hchars, -⟩ := h.gpio_of_no_digit hno
                rw [Ne, strncmp_lengthLessOne h.ne_nil, hchars, List.dropLast_concat] at hgpio
                exact hgpio List.prefix_rfl
              · intro _ b hb
                cases hb
              · by_cases hnil : name.chars = []
                · exact .inl hnil
                · rw [Ne, strncmp_lengthLessOne hnil] at hgpio
                  exact .inr hgpio
            · -- it begins like `GPIO`
              rename_i hgpio
              have hpre : ¬ (name.chars = [] ∨ ¬ name.chars.dropLast <+: gpio.chars) := by
                rintro (hnil | hpre)
                · exact hgpio (strncmp_gpio_of_empty hnil)
                · have hne : name.chars ≠ [] := fun hnil => hpre (by simp [hnil])
                  exact hgpio ((strncmp_lengthLessOne hne).not.mpr hpre)
              rw [accepts_iff_took hnot hb rfl, or_iff_right hnot, or_iff_right hmany,
                or_iff_right fun h => hpre h.2]
              refine exists_congr fun type => exists_congr fun number => and_congr_right fun h => ?_
              exact took_iff_unambiguous hb h (h.number_gpio_iff hno)
          · -- it has a digit
            rename_i hneg
            have hthird : ¬ ((∀ c ∈ name.chars, isDigit c = false) ∧
                (name.chars = [] ∨ ¬ name.chars.dropLast <+: gpio.chars)) := fun h =>
              hneg (firstDigit_neg.mpr h.1)
            rw [accepts_iff_took hnot hb rfl, or_iff_right hnot, or_iff_right hmany,
              or_iff_right hthird]
            refine exists_congr fun type => exists_congr fun number => and_congr_right fun h => ?_
            exact took_iff_unambiguous hb h (h.number_digit_iff hneg)

/-- A serial port, an `I2C` and a `GPIO`, and their drivers. -/
def exampleDevices : DeviceConfig where
  maxInstalledDevices := 4
  devTypes := [⟨[85, 65, 82, 84], by decide⟩, ⟨[73, 50, 67], by decide⟩, gpio]
  installedDevices := [⟨0, some 0x100⟩, ⟨1, some 0x200⟩, ⟨2, some 0x300⟩]

/-- Nothing is open. -/
def noDevices : DeviceTable := ⟨fun _ => ⟨none, 0, 0⟩, fun _ => ⟨none, 0⟩⟩

/-- **`"U1"` opens the serial port**, and `"I2C1"` is given the number 2. -/
theorem short_name_opens :
    let u1 : CString := ⟨[85, 49], by decide⟩
    let i2c1 : CString := ⟨[73, 50, 67, 49], by decide⟩
    (noDevices.osDevOpen exampleDevices (some u1) (fun _ => 0) 0).calls = [⟨⟨0, some 0x100⟩, 0, 0⟩] ∧
    ((noDevices.osDevOpen exampleDevices (some i2c1) (fun _ => 0) 0).table.devControl 0).deviceNumber
      = 2 ∧
    ¬ AcceptsExactly exampleDevices noDevices
      (noDevices.osDevOpen exampleDevices (some u1) (fun _ => 0) 0) u1 0 := by
  refine ⟨by decide, by decide, fun h => ?_⟩
  have hnot : ¬ ∃ i, noDevices.IsOpen exampleDevices ⟨[85, 49], by decide⟩ i := by
    intro ⟨i, _, hi⟩
    cases hi
  obtain ⟨type, number, ⟨t, c, htype, hchars, -⟩, -⟩ := h.took hnot 0 (by decide)
  -- no type has a name of one character
  have hlen : t.chars.length = 1 := by
    have hlen := congrArg List.length hchars
    simpa using hlen.symm
  have hmem : t ∈ exampleDevices.devTypes := List.mem_of_getElem? htype
  exact (by decide : ∀ t ∈ exampleDevices.devTypes, t.chars.length ≠ 1) t hmem hlen

end Brtos
