import EvmSourceMap.Proofs.RunAgreement
import EvmSourceMap.Proofs.SwitchOperands

namespace EvmSourceMap.Proofs.ThreadSetting

open CommandLine
open Arguments
open DecimalSpelling
open DeskRuns
open RunAgreement
open SwitchOperands

/-- A value that asks for one worker or more. -/
def AsksForWorkers (value : Bytes) : Prop :=
  ∃ count, Decimal.readLenient? value = some count ∧ 1 ≤ count

/-- Two runs are given the same, except for the number of workers that they are
asked for, by the switch or else by the environment. The orders in which their
pools run the tasks need not be the same either. -/
inductive SameButThreads (i j : Invocation) : Prop
  | alike (harguments : j.arguments = i.arguments) (henvironment : j.environment = i.environment)
      (hjson : j.json = i.json)
  | switch {position : Nat} {value value' : Bytes}
      (hposition : i.arguments.position? "-threads" = some position)
      (hvalue : i.arguments[position + 1]? = some value) (hcount : AsksForWorkers value)
      (hcount' : AsksForWorkers value')
      (harguments : j.arguments = i.arguments.set (position + 1) value')
      (henvironment : j.environment = i.environment) (hjson : j.json = i.json)
  | environment {value value' : Bytes} (habsent : i.arguments.position? "-threads" = none)
      (harguments : j.arguments = i.arguments)
      (hvalue : i.environment.text? "PCMAP_THREADS" = some value)
      (hvalue' : j.environment.text? "PCMAP_THREADS" = some value') (hcount : AsksForWorkers value)
      (hcount' : AsksForWorkers value')
      (hothers : ∀ name : Bytes, Environment.equalsSign ∉ name → name ≠ "PCMAP_THREADS" →
        j.environment.text? name = i.environment.text? name)
      (hjson : j.json = i.json)

theorem readLenient?_hyphen {text : Bytes} {n : Int}
    (h : Decimal.readLenient? ('-'.toUInt8 :: text) = some n) : n ≤ 0 := by
  have hread : Decimal.readInt? ('-'.toUInt8 :: text) = some n := (Option.filter_eq_some_iff.mp h).1
  rw [readInt?_minus] at hread
  obtain ⟨m, -, rfl⟩ := Option.map_eq_some_iff.mp hread
  omega

theorem AsksForWorkers.isOperand {value : Bytes} (h : AsksForWorkers value) :
    isOperand value = true := by
  obtain ⟨count, hread, hcount⟩ := h
  cases value with
  | nil => cases hread
  | cons b text =>
      simp only [Arguments.isOperand, bne_iff_ne, ne_eq]
      rintro rfl
      have hle := readLenient?_hyphen hread
      omega

theorem equalsIgnoringCase_operand {switch value : Bytes} (hswitch : switch.head? = some '-'.toUInt8)
    (hvalue : isOperand value = true) : Bytes.equalsIgnoringCase switch value = false := by
  rw [← Bool.not_eq_true, equalsIgnoringCase_iff]
  exact fun hsame => isOperand_iff.mp hvalue (hsame.isNoOperand hswitch)

theorem position?_congr {arguments arguments' : Arguments} {switch : Bytes}
    (h : arguments.map (Bytes.equalsIgnoringCase switch) =
      arguments'.map (Bytes.equalsIgnoringCase switch)) :
    arguments.position? switch = arguments'.position? switch := by
  have hmap : ∀ arguments : Arguments, arguments.position? switch =
      (((arguments.map (Bytes.equalsIgnoringCase switch)).drop 1).findIdx? id).map (· + 1) := by
    intro arguments
    rw [← List.map_drop, List.findIdx?_map]
    rfl
  rw [hmap, hmap, h]

theorem matches_of_position? {arguments : Arguments} {switch : Bytes} {position : Nat}
    (h : arguments.position? switch = some position) :
    ∃ argument, arguments[position]? = some argument ∧
      Bytes.equalsIgnoringCase switch argument = true := by
  obtain ⟨index, hindex, rfl⟩ := Option.map_eq_some_iff.mp h
  obtain ⟨hlt, hmatch, -⟩ := List.findIdx?_eq_some_iff_getElem.mp hindex
  refine ⟨(arguments.drop 1)[index], ?_, hmatch⟩
  rw [← List.getElem?_eq_getElem, List.getElem?_drop, Nat.add_comm]

section

variable {arguments : Arguments} {position : Nat} {value value' : Bytes}
  (hposition : arguments.position? "-threads" = some position)
  (hvalue : arguments[position + 1]? = some value) (hoperand : isOperand value = true)
  (hoperand' : isOperand value' = true)

include hvalue hoperand hoperand' in
theorem position?_set {switch : Bytes} (hswitch : switch.head? = some '-'.toUInt8) :
    position? (arguments.set (position + 1) value') switch = arguments.position? switch := by
  apply position?_congr
  have hlt := (List.getElem?_eq_some_iff.mp hvalue).1
  apply List.ext_getElem?
  intro k
  rw [List.getElem?_map, List.getElem?_map, List.getElem?_set]
  split
  · rename_i hk
    rw [← hk, hvalue, Option.map_some, Option.map_some,
      equalsIgnoringCase_operand hswitch hoperand, equalsIgnoringCase_operand hswitch hoperand']
  · rfl

include hposition hvalue hoperand hoperand' in
theorem text?_set {switch : Bytes} (hswitch : OtherSwitch switch) :
    text? (arguments.set (position + 1) value') switch = arguments.text? switch := by
  rw [text?_eq, text?_eq, position?_set hvalue hoperand hoperand' hswitch.1]
  cases hother : arguments.position? switch with
  | none => rfl
  | some other =>
      have hne : position + 1 ≠ other + 1 := by
        -- An argument cannot be both switches.
        intro hsame
        obtain rfl := Nat.succ.inj hsame
        obtain ⟨argument, hargument, hthreads⟩ := matches_of_position? hposition
        obtain ⟨argument', hargument', hmatch⟩ := matches_of_position? hother
        obtain rfl := Option.some.inj (hargument.symm.trans hargument')
        have hboth : Bytes.equalsIgnoringCase "-threads" switch = true :=
          beq_iff_eq.mpr ((beq_iff_eq.mp hthreads).trans (beq_iff_eq.mp hmatch).symm)
        rw [hswitch.2] at hboth
        cases hboth
      dsimp only
      rw [List.getElem?_set_ne hne]

end

theorem exists_pool {i : Invocation} {count : Int} (hasked : i.askedWorkers = .ok (some count))
    (hcount : 1 ≤ count) : ∃ pool, i.pool = .ok pool := by
  rw [Invocation.pool, hasked]
  refine ⟨⟨TaskPool.sizeFor (.ofInt count), i.schedule⟩, ?_⟩
  change (if count < 1 then _ else _) = _
  rw [if_neg (by omega)]
  rfl

theorem exists_pool_of_switch {i : Invocation} {position : Nat} {value : Bytes}
    (hposition : i.arguments.position? "-threads" = some position)
    (hvalue : i.arguments[position + 1]? = some value) (h : AsksForWorkers value) :
    ∃ pool, i.pool = .ok pool := by
  obtain ⟨count, hread, hcount⟩ := h
  have hoperand := AsksForWorkers.isOperand ⟨count, hread, hcount⟩
  have htext : i.arguments.text? "-threads" = .ok (some value) := by
    rw [text?_eq, hposition]
    dsimp only
    rw [hvalue]
    exact if_pos hoperand
  refine exists_pool ?_ hcount
  rw [Invocation.askedWorkers, Arguments.integer?, htext]
  change (((readInteger "-threads" value).map some) >>= _) = _
  rw [readInteger, hread]
  rfl

theorem exists_pool_of_environment {i : Invocation} {value : Bytes}
    (habsent : i.arguments.position? "-threads" = none)
    (hvalue : i.environment.text? "PCMAP_THREADS" = some value) (h : AsksForWorkers value) :
    ∃ pool, i.pool = .ok pool := by
  obtain ⟨count, hread, hcount⟩ := h
  refine exists_pool ?_ hcount
  rw [Invocation.askedWorkers, Arguments.integer?, text?_eq, habsent]
  change i.environment.integer? "PCMAP_THREADS" = _
  rw [Environment.integer?, hvalue]
  change (readInteger "PCMAP_THREADS" value).map some = _
  rw [readInteger, hread]
  rfl

theorem pools_of_askedWorkers {i j : Invocation} (h : i.askedWorkers = j.askedWorkers) :
    (∃ pool pool', i.pool = .ok pool ∧ j.pool = .ok pool') ∨
      ∃ e, i.pool = .error e ∧ j.pool = .error e := by
  rw [Invocation.pool, Invocation.pool, h]
  cases j.askedWorkers with
  | error e => exact .inr ⟨e, rfl, rfl⟩
  | ok asked =>
      cases asked with
      | none => exact .inl ⟨_, _, rfl, rfl⟩
      | some count =>
          by_cases hcount : count < 1
          · exact .inr ⟨.threadCount count, if_pos hcount, if_pos hcount⟩
          · exact .inl ⟨_, _, if_neg hcount, if_neg hcount⟩

theorem sameRequest {i j : Invocation} (h : SameButThreads i j) : SameRequest i j := by
  cases h with
  | alike harguments henvironment hjson =>
      refine ⟨?_, ?_, ?_, hjson.symm, pools_of_askedWorkers ?_⟩
      all_goals simp only [Invocation.askedWorkers, harguments, henvironment, implies_true]
  | @switch position value value' hposition hvalue hcount hcount' harguments henvironment hjson =>
      have hoperand := hcount.isOperand
      have hoperand' := hcount'.isOperand
      have hlt := (List.getElem?_eq_some_iff.mp hvalue).1
      refine ⟨?_, ?_, ?_, hjson.symm, .inl ?_⟩
      · intro switch hswitch
        rw [harguments, text?_set hposition hvalue hoperand hoperand' hswitch]
      · intro switch hswitch
        rw [harguments, Arguments.has, Arguments.has,
          position?_set hvalue hoperand hoperand' hswitch.1]
      · rw [harguments, List.length_set]
      · obtain ⟨pool, hpool⟩ := exists_pool_of_switch hposition hvalue hcount
        have hposition' : j.arguments.position? "-threads" = some position := by
          rw [harguments, position?_set hvalue hoperand hoperand' rfl, hposition]
        have hvalue' : j.arguments[position + 1]? = some value' := by
          rw [harguments, List.getElem?_set_self hlt]
        obtain ⟨pool', hpool'⟩ := exists_pool_of_switch hposition' hvalue' hcount'
        exact ⟨pool, pool', hpool, hpool'⟩
  | environment habsent harguments hvalue hvalue' hcount hcount' hothers hjson =>
      refine ⟨?_, ?_, ?_, hjson.symm, .inl ?_⟩
      · simp only [harguments, implies_true]
      · simp only [harguments, implies_true]
      · rw [harguments]
      · obtain ⟨pool, hpool⟩ := exists_pool_of_environment habsent hvalue hcount
        obtain ⟨pool', hpool'⟩ :=
          exists_pool_of_environment (i := j) (harguments ▸ habsent) hvalue' hcount'
        exact ⟨pool, pool', hpool, hpool'⟩

/-- The number of workers changes neither the exit code nor what is printed nor
any file, whatever the orders are in which the pools run the tasks. -/
theorem ending_sameButThreads {i j : Invocation} (h : SameButThreads i j) (desk : Desk) :
    (ending i desk).1 = (ending j desk).1 ∧
      (ending i desk).2.printed = (ending j desk).2.printed ∧
        (ending i desk).2.store = (ending j desk).2.store := by
  obtain ⟨hcode, hafter⟩ := ending_eq_of_sameRequest (sameRequest h) desk
  exact ⟨hcode, hafter.printed, hafter.store⟩

/-- One worker, or seven that run every batch backwards. -/
theorem ending_sameButThreads_backwards :
    let backwards : TaskPool.Schedule := fun _ size => ⟨(List.range size).reverse, List.reverse_perm _⟩
    let call (workers : Bytes) : Arguments :=
      ["pcmap", "-bytecode", "c", "-source-map", "m", "-Threads", workers, "-sources", "s"]
    let i : Invocation := { arguments := call "1" }
    let j : Invocation := { arguments := call " +7", schedule := backwards }
    let desk : Desk := { store :=
      ((({} : FileStore).create ["c"] "00").create ["m"] "0:1:0").create ["s"] "[]" }
    SameButThreads i j ∧ i.pool = .ok ⟨1, .inTurn⟩ ∧ j.pool = .ok ⟨7, backwards⟩ ∧
      (ending i desk).1 = (ending j desk).1 ∧
        (ending i desk).2.printed = (ending j desk).2.printed ∧
          (ending i desk).2.store = (ending j desk).2.store := by
  intro backwards call i j desk
  have hposition : i.arguments.position? "-threads" = some 5 := by decide +kernel
  have hsame : SameButThreads i j :=
    .switch hposition rfl ⟨1, rfl, by decide⟩ ⟨7, rfl, by decide⟩ rfl rfl rfl
  exact ⟨hsame, rfl, rfl, ending_sameButThreads hsame desk⟩

end EvmSourceMap.Proofs.ThreadSetting
