import LogReplica.Proofs.Concurrency.Schedule
import LogReplica.Proofs.Set.Encoding
import LogReplica.Proofs.Set.Phases
import LogReplica.Trial.SetDemo

namespace LogReplica.Trial.SetDemo

/-- The writers' set, as far as its records fit into the lengths of their encoding. -/
def deployment : Deployment (Model.memberSet String) where
  segment := segment
  updates := Cbor.textUpdates
  snapshots := Cbor.textMembers
  readBuffer _ := Config.default.readBuffer
  retry _ := .unbounded

theorem deployment_sound : deployment.Sound :=
  ⟨Cbor.textUpdates_roundTrips, Cbor.textMembers_roundTrips, Model.memberSet_positional⟩

def itemName (writer item : Nat) : String := s!"writer{writer}-item{item}"

def lastName (writer : Nat) : String := s!"writer{writer}-after-clear"

theorem digits_inj {m n : Nat} (same : Nat.toDigits 10 m = Nat.toDigits 10 n) : m = n := by
  simpa using congrArg (fun digits => Nat.ofDigitChars 10 digits 0) same

theorem dash_not_mem_digits (n : Nat) : '-' ∉ Nat.toDigits 10 n := by
  intro member
  cases Nat.isDigit_of_mem_toDigits (by decide) (by decide) member

theorem toList_itemName (writer item : Nat) : (itemName writer item).toList =
    "writer".toList ++ (Nat.toDigits 10 writer ++ '-' :: ("item".toList ++ Nat.toDigits 10 item)) := by
  simp [itemName]
  rfl

theorem toList_lastName (writer : Nat) : (lastName writer).toList =
    "writer".toList ++ (Nat.toDigits 10 writer ++ "-after-clear".toList) := by
  simp [lastName]
  rfl

theorem itemName_inj {writer item writer' item' : Nat} (same : itemName writer item = itemName writer' item') :
    writer = writer' ∧ item = item' := by
  have chars := congrArg String.toList same
  rw [toList_itemName, toList_itemName] at chars
  have rest := List.append_cancel_left chars
  have late : '-' ∉ "item".toList ++ Nat.toDigits 10 item := by simpa using dash_not_mem_digits item
  obtain ⟨first, _, last⟩ := (List.append_cons_inj_of_notMem (dash_not_mem_digits writer) late).mp rest
  exact ⟨digits_inj first, digits_inj (List.append_cancel_left last)⟩

theorem lastName_inj {writer writer' : Nat} (same : lastName writer = lastName writer') : writer = writer' := by
  have chars := congrArg String.toList same
  rw [toList_lastName, toList_lastName] at chars
  exact digits_inj (List.append_cancel_right (List.append_cancel_left chars))

def itemNames (writers items : Nat) : List String :=
  (List.range writers).flatMap fun writer => (List.range items).map (itemName writer)

def lastNames (writers : Nat) : List String := (List.range writers).map lastName

theorem length_itemNames (writers items : Nat) : (itemNames writers items).length = writers * items := by
  simp [itemNames, List.length_flatMap]

theorem itemNames_nodup (writers items : Nat) : (itemNames writers items).Nodup := by
  refine List.nodup_flatMap.mpr ⟨fun writer _ => ?_, ?_⟩
  · exact List.nodup_range.map fun _ _ same => (itemName_inj same).2
  · refine List.nodup_range.imp fun {writer writer'} apart name early late => apart ?_
    obtain ⟨item, _, rfl⟩ := List.mem_map.mp early
    obtain ⟨item', _, same⟩ := List.mem_map.mp late
    exact (itemName_inj same).1.symm

theorem lastNames_nodup (writers : Nat) : (lastNames writers).Nodup :=
  List.nodup_range.map fun _ _ => lastName_inj

def emptySize : Nat := deployment.framed (.init .empty)

def addSize (value : String) : Nat := deployment.framed (.updates [.add value])

def clearSize : Nat := deployment.framed (.updates [.clear])

def everywhere (ids : Nat → Nat) (operation : Nat → SetOperation String) (writers : Nat) :
    List (Caller (SetOperation String)) := (List.range writers).map fun writer => ⟨ids writer, writer, operation writer⟩

def adders (ids : Nat → Nat → Nat) (writers items : Nat) : List (Caller (SetOperation String)) :=
  (List.range writers).flatMap fun writer =>
    (List.range items).map fun item => ⟨ids writer item, writer, .add (itemName writer item)⟩

section Calls

variable {ids : Nat → Nat} {operation : Nat → SetOperation String} {writers items writer : Nat}
  {caller : Caller (SetOperation String)}

theorem mem_everywhere : caller ∈ everywhere ids operation writers ↔
    ∃ writer < writers, caller = ⟨ids writer, writer, operation writer⟩ := by
  simp only [everywhere, List.mem_map, List.mem_range, eq_comm]

theorem everywhere_alone (member : caller ∈ everywhere ids operation writers) :
    ∀ other ∈ everywhere ids operation writers, other.place = caller.place → other = caller := by
  intro other there same
  obtain ⟨writer, _, rfl⟩ := mem_everywhere.mp member
  obtain ⟨_, _, rfl⟩ := mem_everywhere.mp there
  cases same
  rfl

theorem everywhere_ne_nil (positive : 0 < writers) : everywhere ids operation writers ≠ [] :=
  List.ne_nil_of_mem (mem_everywhere.mpr ⟨0, positive, rfl⟩)

theorem countP_everywhere (here : writer < writers) :
    (everywhere ids operation writers).countP (fun c => c.place = writer) = 1 := by
  rw [everywhere, List.countP_map]
  have count : List.count writer (List.range writers) = 1 := by rw [List.count_range, if_pos here]
  rw [← count, List.count]
  exact List.countP_congr fun other _ => by simp

theorem mem_adders {ids : Nat → Nat → Nat} : caller ∈ adders ids writers items ↔
    ∃ writer < writers, ∃ item < items, caller = ⟨ids writer item, writer, .add (itemName writer item)⟩ := by
  simp only [adders, List.mem_flatMap, List.mem_map, List.mem_range, eq_comm]

theorem countP_adders (ids : Nat → Nat → Nat) (writers items writer : Nat) :
    (adders ids writers items).countP (fun c => c.place = writer) = if writer < writers then items else 0 := by
  induction writers with
  | zero => rfl
  | succ writers ih =>
    have last : ((List.range items).map fun item => (⟨ids writers item, writers, .add (itemName writers item)⟩ :
        Caller (SetOperation String))).countP (fun c => c.place = writer) = if writers = writer then items else 0 := by
      rw [List.countP_map]
      by_cases same : writers = writer <;> simp [Function.comp_def, same]
    rw [adders, List.range_succ, List.flatMap_append, List.countP_append, ← adders, ih, List.flatMap_singleton, last]
    split_ifs <;> omega

theorem add_of_mem_adders {ids : Nat → Nat → Nat} {value : String} :
    (∃ c ∈ adders ids writers items, c.operation = .add value) ↔ value ∈ itemNames writers items := by
  simp only [itemNames, List.mem_flatMap, List.mem_map, List.mem_range]
  constructor
  · rintro ⟨c, member, adds⟩
    obtain ⟨writer, here, item, there, rfl⟩ := mem_adders.mp member
    cases adds
    exact ⟨writer, here, item, there, rfl⟩
  · rintro ⟨writer, here, item, there, rfl⟩
    exact ⟨_, mem_adders.mpr ⟨writer, here, item, there, rfl⟩, rfl⟩

theorem add_of_mem_everywhere {value : String} :
    (∃ c ∈ everywhere ids (fun writer => .add (lastName writer)) writers, c.operation = .add value) ↔
      value ∈ lastNames writers := by
  simp only [lastNames, List.mem_map, List.mem_range]
  constructor
  · rintro ⟨c, member, adds⟩
    obtain ⟨writer, here, rfl⟩ := mem_everywhere.mp member
    cases adds
    exact ⟨writer, here, rfl⟩
  · rintro ⟨writer, here, rfl⟩
    exact ⟨_, mem_everywhere.mpr ⟨writer, here, rfl⟩, rfl⟩

end Calls

structure Numbers where
  opening : Nat → Nat
  adding : Nat → Nat → Nat
  measuring : Nat
  clearing : Nat
  finishing : Nat → Nat
  viewing : Nat

abbrev Stage := System (Model.memberSet String) Unit (SetOperation String) (SetResult String)

/-- A demonstration that has come to its end. The calls of one step run among each other in any order, also where a
writer would make one after the other; those of the next step begin when they have all ended. -/
structure Demonstration (writers items : Nat) where
  ids : Numbers
  opened : Stage
  added : Stage
  measured : Stage
  cleared : Stage
  finished : Stage
  viewed : Stage
  size : Nat
  values : SortedSet String
  opening : System.Together (ReplicatedSet.program deployment) (everywhere ids.opening (fun _ => .openOrCreate) writers)
    .initial opened
  adding : System.Together (ReplicatedSet.program deployment) (adders ids.adding writers items) opened added
  measuring : System.Together (ReplicatedSet.program deployment) [⟨ids.measuring, 0, .currentSize⟩] added measured
  sized : measured.Returned ⟨ids.measuring, 0, .currentSize⟩ (.ok (.size size))
  clearing : System.Together (ReplicatedSet.program deployment) [⟨ids.clearing, 0, .clear⟩] measured cleared
  finishing : System.Together (ReplicatedSet.program deployment)
    (everywhere ids.finishing (fun writer => .add (lastName writer)) writers) cleared finished
  viewing : System.Together (ReplicatedSet.program deployment) [⟨ids.viewing, writers - 1, .currentValues⟩] finished
    viewed
  shown : viewed.Returned ⟨ids.viewing, writers - 1, .currentValues⟩ (.ok (.members values))

namespace Demonstration

variable {writers items writer : Nat} (run : Demonstration writers items)

def report : Report :=
  let f := run.viewed.world.store.buffer segment
  ⟨run.size, run.values.toList, f.attributes.get? .mark, f.start, f.tail,
    (List.range writers).map fun writer => (run.viewed.world.memories writer).stats⟩

theorem opens : ReplicatedSet.Opening deployment (everywhere run.ids.opening (fun _ => .openOrCreate) writers)
    run.opened where
  before := ⟨[], .nil _⟩
  together := run.opening
  opens c member := by
    obtain ⟨writer, _, rfl⟩ := mem_everywhere.mp member
    rfl

theorem adds (positive : 0 < writers) :
    ReplicatedSet.Adding deployment (adders run.ids.adding writers items) run.opened run.added where
  before := ⟨_, run.opening⟩
  together := run.adding
  adds c member := by
    obtain ⟨writer, _, item, _, rfl⟩ := mem_adders.mp member
    exact ⟨_, rfl⟩
  distinct c member c' member' same := by
    obtain ⟨writer, _, item, _, rfl⟩ := mem_adders.mp member
    obtain ⟨writer', _, item', _, rfl⟩ := mem_adders.mp member'
    obtain ⟨rfl, rfl⟩ := itemName_inj (SetOperation.add.inj same)
    rfl
  absent c member value adds := by
    rw [run.opens.elements_eq deployment_sound (everywhere_ne_nil positive)]
    exact id

theorem measures : ReplicatedSet.Reading deployment [⟨run.ids.measuring, 0, .currentSize⟩] run.added run.measured where
  before := ⟨_, run.opening.append run.adding⟩
  together := run.measuring
  reads c member := by
    rw [List.mem_singleton.mp member]
    exact ⟨_, rfl⟩

theorem whole_added (positive : 0 < writers) : deployment.oldest run.added.trace = 0 :=
  ((run.adds positive).unmoved deployment_sound (run.adds positive).incremental).2.trans
    (run.opens.whole deployment_sound).2

theorem whole_measured (positive : 0 < writers) : deployment.oldest run.measured.trace = 0 :=
  (run.measures.unmoved deployment_sound run.measures.incremental).2.trans (run.whole_added positive)

theorem clears (positive : 0 < writers) :
    ReplicatedSet.Clearing deployment ⟨run.ids.clearing, 0, .clear⟩ run.measured run.cleared where
  before := ⟨_, (run.opening.append run.adding).append run.measuring⟩
  together := run.clearing
  clears := rfl
  whole := run.whole_measured positive

theorem finishes (positive : 0 < writers) : ReplicatedSet.Adding deployment
    (everywhere run.ids.finishing (fun writer => .add (lastName writer)) writers) run.cleared run.finished where
  before := ⟨_, ((run.opening.append run.adding).append run.measuring).append run.clearing⟩
  together := run.finishing
  adds c member := by
    obtain ⟨writer, _, rfl⟩ := mem_everywhere.mp member
    exact ⟨_, rfl⟩
  distinct c member c' member' same := by
    obtain ⟨writer, _, rfl⟩ := mem_everywhere.mp member
    obtain ⟨writer', _, rfl⟩ := mem_everywhere.mp member'
    obtain rfl := lastName_inj (SetOperation.add.inj same)
    rfl
  absent c member value adds := by
    rw [(run.clears positive).elements_eq deployment_sound]
    exact id

theorem views : ReplicatedSet.Reading deployment [⟨run.ids.viewing, writers - 1, .currentValues⟩] run.finished
    run.viewed where
  before := ⟨_, (((run.opening.append run.adding).append run.measuring).append run.clearing).append run.finishing⟩
  together := run.viewing
  reads c member := by
    rw [List.mem_singleton.mp member]
    exact ⟨_, rfl⟩

theorem elements_measured (positive : 0 < writers) : deployment.elements (deployment.log run.measured.trace) =
    {value | value ∈ itemNames writers items} := by
  rw [run.measures.log_eq deployment_sound, (run.adds positive).elements_eq deployment_sound,
    run.opens.elements_eq deployment_sound (everywhere_ne_nil positive), Set.empty_union]
  exact Set.ext fun value => add_of_mem_adders

theorem elements_finished (positive : 0 < writers) : deployment.elements (deployment.log run.finished.trace) =
    {value | value ∈ lastNames writers} := by
  rw [(run.finishes positive).elements_eq deployment_sound, (run.clears positive).elements_eq deployment_sound,
    Set.empty_union]
  exact Set.ext fun value => add_of_mem_everywhere

theorem none_measured_iff (positive : 0 < writers) :
    deployment.elements (deployment.log run.measured.trace) = ∅ ↔ writers * items = 0 := by
  rw [run.elements_measured positive, ← length_itemNames, List.length_eq_zero_iff, List.eq_nil_iff_forall_not_mem,
    Set.eq_empty_iff_forall_notMem]
  rfl

theorem size_eq (positive : 0 < writers) : run.size = writers * items := by
  have answers := run.measures.answers deployment_sound (List.mem_singleton_self _) run.sized
  rw [← run.measures.log_eq deployment_sound, run.elements_measured positive] at answers
  have counted : {value | value ∈ itemNames writers items}.encard = run.size := answers
  rw [← List.coe_toFinset, Set.encard_coe_eq_coe_finsetCard, List.toFinset_card_of_nodup (itemNames_nodup _ _),
    length_itemNames] at counted
  exact (ENat.natCast_inj.mp counted).symm

theorem values_perm (positive : 0 < writers) : run.values.toList.Perm (lastNames writers) := by
  have answers := run.views.answers deployment_sound (List.mem_singleton_self _) run.shown
  rw [run.elements_finished positive] at answers
  have shown : run.values.elements = {value | value ∈ lastNames writers} := answers
  exact (List.perm_ext_iff_of_nodup run.values.nodup (lastNames_nodup writers)).mpr fun value =>
    Set.ext_iff.mp shown value

theorem ending_measured (positive : 0 < writers) : ending 0 (deployment.log run.measured.trace) =
    emptySize + ((itemNames writers items).map addSize).sum := by
  rw [run.measures.log_eq deployment_sound, (run.adds positive).ending_eq deployment_sound,
    run.opens.ending_eq deployment_sound (everywhere_ne_nil positive)]
  simp only [adders, itemNames, List.map_flatMap, List.map_map]
  rfl

theorem bounds_cleared (positive : 0 < writers) :
    deployment.oldest run.cleared.trace = emptySize + ((itemNames writers items).map addSize).sum +
      (if 0 < writers * items then clearSize else 0) ∧
    deployment.mark run.cleared.trace = some (deployment.oldest run.cleared.trace : Int) ∧
    ending 0 (deployment.log run.cleared.trace) = deployment.oldest run.cleared.trace + emptySize := by
  classical
  obtain ⟨oldest, mark, ends, _⟩ := (run.clears positive).cut deployment_sound
  refine ⟨?_, mark, ends⟩
  rw [oldest, run.ending_measured positive]
  simp only [run.none_measured_iff positive, clearSize]
  split_ifs <;> omega

theorem bounds_viewed (positive : 0 < writers) :
    deployment.oldest run.viewed.trace = deployment.oldest run.cleared.trace ∧
    deployment.mark run.viewed.trace = deployment.mark run.cleared.trace ∧
    ending 0 (deployment.log run.viewed.trace) = ending 0 (deployment.log run.cleared.trace) +
      ((lastNames writers).map addSize).sum := by
  obtain ⟨mark, oldest⟩ := (run.finishes positive).unmoved deployment_sound (run.finishes positive).incremental
  obtain ⟨mark', oldest'⟩ := run.views.unmoved deployment_sound run.views.incremental
  refine ⟨oldest'.trans oldest, mark'.trans mark, ?_⟩
  rw [run.views.log_eq deployment_sound, (run.finishes positive).ending_eq deployment_sound]
  simp only [everywhere, lastNames, List.map_map]
  rfl

theorem cached (here : writer < writers) {t : Trace (Model.memberSet String) Unit (SetOperation String)}
    (lawful : Lawful (deployment.law (ReplicatedSet.conduct Unit deployment)) t) (le : run.opened.trace <+: t) :
    ∃ copy, t.cache writer = some copy := by
  obtain ⟨_, held⟩ := run.opens.counted deployment_sound (mem_everywhere.mpr ⟨writer, here, rfl⟩)
  obtain ⟨copy, cached⟩ := Option.ne_none_iff_exists'.mp held
  obtain ⟨later, there, _⟩ := Deployment.noOlder lawful le writer copy cached
  exact ⟨later, there⟩

theorem lagging_cleared (positive : 0 < writers) (here : writer < writers) :
    deployment.Lagging run.cleared.trace writer = decide (writer ≠ 0 ∧ 0 < items) := by
  classical
  by_cases first : writer = 0
  · subst first
    obtain ⟨_, _, _, _, caughtUp⟩ := (run.clears positive).cut deployment_sound
    simpa using caughtUp
  · have since := run.adding.le
    obtain ⟨copy, cached⟩ := run.cached here (run.adds positive).lawful since
    have low := run.opens.le_offset deployment_sound (everywhere_ne_nil positive) (run.adds positive).lawful since
      cached
    have high := (Deployment.placed (run.adds positive).lawful cached).offset_le
      (Deployment.log_chain (run.adds positive).lawful)
    rw [← run.measures.log_eq deployment_sound, run.ending_measured positive] at high
    have elsewhere : ∀ {id : Nat} {operation : SetOperation String}, ∀ c ∈ [(⟨id, 0, operation⟩ : Caller _)],
        c.place ≠ writer := by
      intro id operation c member
      rw [List.mem_singleton.mp member]
      exact fun same => first same.symm
    rw [← run.measuring.cache_eq elsewhere, ← run.clearing.cache_eq elsewhere] at cached
    obtain ⟨oldest, _⟩ := run.bounds_cleared positive
    have takes : 0 < clearSize := Nat.lt_of_lt_of_le (by decide) (Nat.le_add_right Framed.headerSize _)
    rw [Deployment.Lagging, cached, Option.any_some, oldest, decide_eq_decide]
    rcases Nat.eq_zero_or_pos items with none | some
    · have low : emptySize ≤ copy.revision.offset := low
      have unnamed : itemNames writers items = [] := by
        rw [← List.length_eq_zero_iff, length_itemNames, none, Nat.mul_zero]
      rw [unnamed, none, Nat.mul_zero, if_neg (Nat.lt_irrefl 0), List.map_nil, List.sum_nil]
      omega
    · rw [if_pos (Nat.mul_pos positive some)]
      omega

theorem outcome_added (positive : 0 < writers) (here : writer < writers) :
    ((World.after run.added.trace).memories writer).stats.outcome = (items, 0, 0) := by
  have before : ((World.after run.opened.trace).memories writer).stats.outcome = (0, 0, 0) := by
    have each : ∀ c ∈ everywhere run.ids.opening (fun _ => .openOrCreate) writers, c.place = writer →
        (run.opened.trace.recorded c).outcome = (0, 0, 0) := fun _ member _ =>
      (run.opens.counted deployment_sound member).1
    rw [Stats.outcome_additive.stats_of_together .refl run.opening each]
    simp [World.after, World.fresh, System.initial, Stats.outcome]
  have each : ∀ c ∈ adders run.ids.adding writers items, c.place = writer →
      (run.added.trace.recorded c).outcome = (1, 0, 0) := by
    intro c member _
    obtain ⟨counted, _⟩ := (run.adds positive).counted deployment_sound member (.inl (run.whole_added positive))
    rw [counted, Deployment.not_lagging_of_oldest (run.opens.whole deployment_sound).2]
    rfl
  rw [Stats.outcome_additive.stats_of_together run.opens.reachable run.adding each, before, countP_adders,
    if_pos here]
  simp

theorem outcome_measured (positive : 0 < writers) (here : writer < writers) :
    ((World.after run.measured.trace).memories writer).stats.outcome = (items, 0, 0) := by
  have each : ∀ c ∈ [(⟨run.ids.measuring, 0, .currentSize⟩ : Caller (SetOperation String))], c.place = writer →
      (run.measured.trace.recorded c).outcome = (0, 0, 0) := by
    intro c member _
    obtain ⟨counted, _⟩ := run.measures.counted deployment_sound member (.inl (run.whole_measured positive))
    rw [counted, Deployment.not_lagging_of_oldest (run.whole_added positive)]
    rfl
  rw [Stats.outcome_additive.stats_of_together (run.adds positive).reachable run.measuring each,
    run.outcome_added positive here]
  simp

theorem outcome_cleared (positive : 0 < writers) (here : writer < writers) :
    ((World.after run.cleared.trace).memories writer).stats.outcome =
      (items + (if writer = 0 ∧ 0 < items then 1 else 0), if writer = 0 then 1 else 0, 0) := by
  classical
  obtain ⟨_, _, _, counted, _⟩ := (run.clears positive).cut deployment_sound
  rw [Stats.outcome_additive.stats_of_together run.measures.reachable run.clearing (fun c member _ => by
    rw [List.mem_singleton.mp member, counted]), run.outcome_measured positive here]
  have pending : writers * items = 0 ↔ items = 0 := by
    rw [Nat.mul_eq_zero]
    omega
  simp only [run.none_measured_iff positive, pending]
  by_cases first : writer = 0 <;> by_cases none : items = 0 <;>
    simp [first, none, Nat.pos_of_ne_zero, eq_comm]

theorem outcome_finished (positive : 0 < writers) (here : writer < writers) :
    ((World.after run.finished.trace).memories writer).stats.outcome =
      (items + 1 + (if writer = 0 ∧ 0 < items then 1 else 0), if writer = 0 then 1 else 0,
        if writer ≠ 0 ∧ 0 < items then 1 else 0) ∧ deployment.Lagging run.finished.trace writer = false := by
  have since : run.opened.trace <+: run.cleared.trace :=
    run.adding.le.trans (run.measuring.le.trans run.clearing.le)
  have counted : ∀ c ∈ everywhere run.ids.finishing (fun writer => .add (lastName writer)) writers, c.place = writer →
      (run.finished.trace.recorded c).outcome = (1, 0, if writer ≠ 0 ∧ 0 < items then 1 else 0) ∧
        deployment.Lagging run.finished.trace writer = false := by
    rintro c member rfl
    obtain ⟨copy, cached⟩ := run.cached here (run.clears positive).lawful since
    obtain ⟨counted, caughtUp⟩ := (run.finishes positive).counted deployment_sound member
      (.inr ⟨by rw [cached]; exact nofun, everywhere_alone member⟩)
    rw [counted, run.lagging_cleared positive here]
    exact ⟨by simp, caughtUp⟩
  refine ⟨?_, (counted _ (mem_everywhere.mpr ⟨writer, here, rfl⟩) rfl).2⟩
  rw [Stats.outcome_additive.stats_of_together (run.clears positive).reachable run.finishing
    fun c member there => (counted c member there).1, run.outcome_cleared positive here, countP_everywhere here]
  simp
  omega

theorem outcome_viewed (positive : 0 < writers) (here : writer < writers) :
    ((World.after run.viewed.trace).memories writer).stats.outcome =
      (items + 1 + (if writer = 0 ∧ 0 < items then 1 else 0), if writer = 0 then 1 else 0,
        if writer ≠ 0 ∧ 0 < items then 1 else 0) := by
  have since : run.opened.trace <+: run.finished.trace :=
    run.adding.le.trans (run.measuring.le.trans (run.clearing.le.trans run.finishing.le))
  have each : ∀ c ∈ [(⟨run.ids.viewing, writers - 1, .currentValues⟩ : Caller (SetOperation String))],
      c.place = writer → (run.viewed.trace.recorded c).outcome = (0, 0, 0) := by
    rintro c member rfl
    obtain ⟨copy, cached⟩ := run.cached here (run.finishes positive).lawful since
    have alone : ∀ other ∈ [(⟨run.ids.viewing, writers - 1, .currentValues⟩ : Caller (SetOperation String))],
        other.place = c.place → other = c := fun _ there _ =>
      (List.mem_singleton.mp there).trans (List.mem_singleton.mp member).symm
    obtain ⟨counted, _⟩ := run.views.counted deployment_sound member (.inr ⟨by rw [cached]; exact nofun, alone⟩)
    rw [counted, (run.outcome_finished positive here).2]
    rfl
  rw [Stats.outcome_additive.stats_of_together (run.finishes positive).reachable run.viewing each,
    (run.outcome_finished positive here).1]
  simp

end Demonstration

/-- What a report can only be, whoever came first. -/
structure Foretold (writers items : Nat) (report : Report) : Prop where
  size : report.sizeBeforeClear = writers * items
  values : report.finalValues.Perm (lastNames writers)
  sorted : report.finalValues.Pairwise (· < ·)
  mark : report.mark = some (report.oldest : Int)
  oldest : report.oldest = emptySize + ((itemNames writers items).map addSize).sum +
    if 0 < writers * items then clearSize else 0
  tail : report.tail = report.oldest + emptySize + ((lastNames writers).map addSize).sum
  /-- Updates, compactions and recoveries of each writer. -/
  outcomes : report.writers.map Stats.outcome = (List.range writers).map fun writer =>
    (items + 1 + (if writer = 0 ∧ 0 < writers * items then 1 else 0), if writer = 0 then 1 else 0,
      if writer ≠ 0 ∧ 0 < items then 1 else 0)

theorem report_determined {writers items : Nat} (positive : 0 < writers) (run : Demonstration writers items) :
    Foretold writers items run.report := by
  obtain ⟨oldest, mark, ends⟩ := run.bounds_cleared positive
  obtain ⟨oldest', mark', ends'⟩ := run.bounds_viewed positive
  have tail := Deployment.tail_eq run.views.lawful
  refine ⟨run.size_eq positive, run.values_perm positive, ?_, ?_, ?_, ?_, ?_⟩
  · exact run.values.ascending.imp fun lt => compareOfLessAndEq_eq_lt.mp lt
  · exact mark'.trans (mark.trans (congrArg (fun n : Nat => some (n : Int)) oldest'.symm))
  · exact oldest'.trans oldest
  · rw [ends', ends, ← oldest'] at tail
    exact tail
  · rw [Demonstration.report, List.map_map]
    simp only [Nat.mul_pos_iff_of_pos_left positive]
    exact List.map_congr_left fun writer here => run.outcome_viewed positive (List.mem_range.mp here)

example : (run 2 1).toOption.map (fun r => (r.sizeBeforeClear, r.oldest, r.tail)) =
    some (2, emptySize + ((itemNames 2 1).map addSize).sum + clearSize,
      emptySize + ((itemNames 2 1).map addSize).sum + clearSize + emptySize + ((lastNames 2).map addSize).sum) := by
  decide +kernel

/-- Two writers with an item each. One has read the set when the other one adds to it, so it has to try again. -/
def schedules : List (List (Move (SetOperation String))) := [
  Move.run ⟨0, 0, .openOrCreate⟩ 12 ++ Move.run ⟨1, 1, .openOrCreate⟩ 20,
  Move.run ⟨2, 0, .add (itemName 0 0)⟩ 9 ++ Move.run ⟨3, 1, .add (itemName 1 0)⟩ 30 ++ Move.steps 2 40,
  Move.run ⟨4, 0, .currentSize⟩ 20,
  Move.run ⟨5, 0, .clear⟩ 60,
  Move.run ⟨6, 0, .add (lastName 0)⟩ 40 ++ Move.run ⟨7, 1, .add (lastName 1)⟩ 60,
  Move.run ⟨8, 1, .currentValues⟩ 20]

def stageAt : Nat → System.Stage (Model.memberSet String) Unit (SetOperation String) (SetResult String)
  | 0 => .initial
  | step + 1 => (stageAt step).play (ReplicatedSet.program deployment) (fun _ => ([], ())) (·.members)
    (schedules.getD step [])

theorem fair_stageAt : (step : Nat) → (stageAt step).Fair
  | 0 => System.Stage.fair_initial
  | step + 1 => ((fair_stageAt step).play _).fair

theorem steps_stageAt (step : Nat) :
    (stageAt step).system.Steps (ReplicatedSet.program deployment) (stageAt (step + 1)).system :=
  ((fair_stageAt step).play _).steps

def contended : Demonstration 2 1 where
  ids := ⟨id, fun writer _ => writer + 2, 4, 5, (· + 6), 8⟩
  opened := (stageAt 1).system
  added := (stageAt 2).system
  measured := (stageAt 3).system
  cleared := (stageAt 4).system
  finished := (stageAt 5).system
  viewed := (stageAt 6).system
  size := 2
  values := .ofList [lastName 0, lastName 1]
  opening := .of_steps (steps_stageAt 0) (by decide) (by decide +kernel)
  adding := .of_steps (steps_stageAt 1) (by decide) (by decide +kernel)
  measuring := .of_steps (steps_stageAt 2) (by decide) (by decide +kernel)
  sized := System.returned_of_answer? (by decide +kernel)
  clearing := .of_steps (steps_stageAt 3) (by decide) (by decide +kernel)
  finishing := .of_steps (steps_stageAt 4) (by decide) (by decide +kernel)
  viewing := .of_steps (steps_stageAt 5) (by decide) (by decide +kernel)
  shown := System.returned_of_answer? (by decide +kernel)

theorem contended_determined : 0 < 2 ∧ Foretold 2 1 contended.report ∧
    contended.report.writers.map Stats.conflicts = [1, 0] :=
  ⟨by decide, report_determined (by decide) contended, by decide +kernel⟩

end LogReplica.Trial.SetDemo
