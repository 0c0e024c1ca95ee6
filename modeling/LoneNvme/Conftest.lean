import LoneNvme.Lib.Python
import LoneNvme.Lib.Firsts

/-!
# The configured tests

`pytest_collection_modifyitems` replaces the collected tests by those that the configuration
file lists, in the order of the file, it says. But to run each of them once it makes the list
a set first.

The order in which Python goes over a set is a parameter, a permutation of its elements. So the
list that is run is one of the configured tests in *some* order, each once, and
`runsInOrder_iff` says when that is the order of the file for every such permutation: when all
tests in it refer to one item.
-/

namespace LoneNvme

open Lib

namespace Conftest

/-- A collected test. No other has its node id, so these two tell it apart. -/
structure Item where
  name : String
  nodeid : String
  deriving DecidableEq, Repr

inductive Level where
  | warning
  | error
  deriving DecidableEq, Repr

/-- What the hook changes: the tests it is given, in place, and the log. -/
structure Session where
  items : List Item
  log : List (Level × String) := []
  deriving DecidableEq, Repr

/-- What it reads of a configuration file: the value of `test_list`, if the key is there. -/
structure ConfigData where
  testList : Option (Option (List String))

/-- The files, as `os.path` and `yaml` show them. One that exists may still not load. -/
structure Files where
  abspath : String → String
  load : String → Option (Except Exc ConfigData)

/-- `logger.warning`. -/
def logWarning (message : String) : EStateM Exc Session Unit :=
  modify fun s => { s with log := s.log ++ [(.warning, message)] }

/-- `logger.error`. -/
def logError (message : String) : EStateM Exc Session Unit :=
  modify fun s => { s with log := s.log ++ [(.error, message)] }

def duplicateTests : String := "Duplicate tests in test_list will be combined into 1 run"

/-- The report of the tests that were found instead. -/
def logFound : List Item → EStateM Exc Session Unit
  | [] => return ()
  | t :: itemsCopy => do
      logWarning ("NODEID: " ++ t.nodeid ++ " NAME: " ++ t.name)
      logFound itemsCopy

/-- Where a test of the list is among the collected ones: by its name, else by its node id. -/
def indexOf (itemsCopy : List Item) (test : String) : EStateM Exc Session Nat := do
  let discoveredTestNames := itemsCopy.map Item.name
  let discoveredTestNodeids := itemsCopy.map Item.nodeid
  if test ∈ discoveredTestNames then
    return discoveredTestNames.idxOf test
  else if test ∈ discoveredTestNodeids then
    return discoveredTestNodeids.idxOf test
  else
    logError (test ++ " not found! Tests found:")
    logFound itemsCopy
    throw (.assertionError ("Requested test: " ++ test ++ " not found!"))

/-- The loop over the tests of the configuration file. -/
def selectTests (itemsCopy : List Item) : List String → EStateM Exc Session Unit
  | [] => return ()
  | test :: configTests => do
      let index ← indexOf itemsCopy test
      match itemsCopy[index]? with
      | none => throw (.indexError "list index out of range")
      | some item =>
          let s ← get
          if item ∈ s.items then
            logWarning duplicateTests
          else
            set { s with items := s.items ++ [item] }
          selectTests itemsCopy configTests

/-- `pytest_collection_modifyitems`, `config` being the value of the option. -/
def pytestCollectionModifyitems (order : SetOrder String) (files : Files)
    (config : Option String) : EStateM Exc Session Unit :=
  match config with
  | none => return ()
  | some path => do
      let configPath := files.abspath path
      match files.load configPath with
      | none => throw (.assertionError ("Config path: " ++ configPath ++ " does not exist"))
      | some (.error e) => throw e
      | some (.ok configData) =>
          match configData.testList with
          | none => return ()
          | some none => return ()
          | some (some testList) => do
              let configTests := order.toList testList
              if testList.length ≠ configTests.length then
                logWarning duplicateTests
              let itemsCopy := (← get).items
              modify fun s => { s with items := [] }
              selectTests itemsCopy configTests

/-! ## What a test of the list refers to -/

/-- The first item of that name, or else the item with that node id. -/
def refersTo (items : List Item) (test : String) : Option Item :=
  (items.find? fun item => item.name = test).or (items.find? fun item => item.nodeid = test)

/-- The items the tests of the list refer to, each where it comes first. -/
def configured (items : List Item) (testList : List String) : List Item :=
  (testList.filterMap (refersTo items)).eraseDups

variable {items : List Item} {test : String} {item : Item} {s : Session}

section

variable (key : Item → String)

theorem find?_isSome_iff :
    (items.find? fun item => key item = test).isSome ↔ test ∈ items.map key := by
  rw [List.find?_isSome, List.mem_map]
  exact exists_congr fun _ => and_congr_right fun _ => decide_eq_true_iff

theorem find?_eq_none_iff :
    (items.find? fun item => key item = test) = none ↔ test ∉ items.map key := by
  rw [← find?_isSome_iff key, Option.not_isSome_iff_eq_none]

theorem find?_eq_getElem?_idxOf :
    (items.find? fun item => key item = test) = items[(items.map key).idxOf test]? := by
  rw [List.find?_eq_getElem?_findIdx, List.idxOf, List.findIdx_map]
  rfl

end

/-- A test refers to an item if it is the name or the node id of one. -/
theorem refersTo_isSome_iff :
    (refersTo items test).isSome ↔ ∃ item ∈ items, item.name = test ∨ item.nodeid = test := by
  rw [refersTo, Option.isSome_or, Bool.or_eq_true, find?_isSome_iff, find?_isSome_iff,
    List.mem_map, List.mem_map]
  constructor
  · rintro (⟨item, hitem, hname⟩ | ⟨item, hitem, hnodeid⟩)
    · exact ⟨item, hitem, Or.inl hname⟩
    · exact ⟨item, hitem, Or.inr hnodeid⟩
  · rintro ⟨item, hitem, hname | hnodeid⟩
    · exact Or.inl ⟨item, hitem, hname⟩
    · exact Or.inr ⟨item, hitem, hnodeid⟩

/-- **The lookup** of a test that refers to an item leads to it. -/
theorem indexOf_ok (h : refersTo items test = some item) :
    ∃ index, indexOf items test s = .ok index s ∧ items[index]? = some item := by
  unfold refersTo at h
  by_cases hname : test ∈ items.map Item.name
  · refine ⟨(items.map Item.name).idxOf test, ?_, ?_⟩
    · unfold indexOf
      rw [if_pos hname]
      rfl
    · rw [← find?_eq_getElem?_idxOf, ← h, Option.or_of_isSome ((find?_isSome_iff _).mpr hname)]
  · rw [(find?_eq_none_iff _).mpr hname, Option.none_or] at h
    have hnodeid : test ∈ items.map Item.nodeid := by
      rw [← find?_isSome_iff, h]
      rfl
    refine ⟨(items.map Item.nodeid).idxOf test, ?_, ?_⟩
    · unfold indexOf
      rw [if_neg hname, if_pos hnodeid]
      rfl
    · rw [← find?_eq_getElem?_idxOf, h]

theorem logFound_run (itemsCopy : List Item) : ∃ log, logFound itemsCopy s = .ok () { s with log } := by
  induction itemsCopy generalizing s with
  | nil => exact ⟨s.log, rfl⟩
  | cons t itemsCopy ih =>
      obtain ⟨log, hlog⟩ := @ih { s with
        log := s.log ++ [(.warning, "NODEID: " ++ t.nodeid ++ " NAME: " ++ t.name)] }
      exact ⟨log, hlog⟩

/-- A test that refers to none ends the hook, with the items as they are then. -/
theorem indexOf_error (h : refersTo items test = none) :
    ∃ log, indexOf items test s
      = .error (.assertionError ("Requested test: " ++ test ++ " not found!")) { s with log } := by
  obtain ⟨hname, hnodeid⟩ := Option.or_eq_none_iff.mp h
  obtain ⟨log, hlog⟩ := @logFound_run
    { s with log := s.log ++ [(.error, test ++ " not found! Tests found:")] } items
  refine ⟨log, ?_⟩
  unfold indexOf
  rw [if_neg ((find?_eq_none_iff _).mp hname), if_neg ((find?_eq_none_iff _).mp hnodeid)]
  exact run_bind_ok hlog

/-! ## The loop -/

theorem selectTests_of_mem {configTests : List String} (href : refersTo items test = some item)
    (hmem : item ∈ s.items) : selectTests items (test :: configTests) s
      = selectTests items configTests { s with log := s.log ++ [(.warning, duplicateTests)] } := by
  obtain ⟨index, hindex, hitem⟩ := @indexOf_ok _ _ _ s href
  rw [selectTests, run_bind_ok hindex, hitem]
  dsimp only
  rw [run_get_bind, if_pos hmem]
  rfl

theorem selectTests_of_notMem {configTests : List String} (href : refersTo items test = some item)
    (hmem : item ∉ s.items) : selectTests items (test :: configTests) s
      = selectTests items configTests { s with items := s.items ++ [item] } := by
  obtain ⟨index, hindex, hitem⟩ := @indexOf_ok _ _ _ s href
  rw [selectTests, run_bind_ok hindex, hitem]
  dsimp only
  rw [run_get_bind, if_neg hmem]
  rfl

/-- One more test of the list, by the item it refers to. -/
theorem configured_concat {done : List String} (href : refersTo items test = some item) :
    configured items (done ++ [test]) = if item ∈ configured items done then configured items done
      else configured items done ++ [item] := by
  unfold configured
  rw [List.filterMap_append, List.filterMap_cons_some href, List.filterMap_nil, eraseDups_concat]
  simp only [List.mem_eraseDups]

/--
**The loop** adds the items of its tests where they come first, and warns of each test whose
item is there.
-/
theorem selectTests_ok {configTests : List String}
    (hfound : ∀ test ∈ configTests, (refersTo items test).isSome) :
    ∀ {done : List String} {log : List (Level × String)}, ∃ n,
      selectTests items configTests ⟨configured items done, log⟩
        = .ok () ⟨configured items (done ++ configTests),
            log ++ List.replicate n (.warning, duplicateTests)⟩
      ∧ n + (configured items (done ++ configTests)).length
        = (configured items done).length + configTests.length := by
  induction configTests with
  | nil =>
      intro done log
      refine ⟨0, ?_, ?_⟩
      · rw [List.append_nil, List.replicate_zero, List.append_nil]
        rfl
      · rw [List.append_nil, Nat.zero_add]
        rfl
  | cons test configTests ih =>
      intro done log
      obtain ⟨item, href⟩ := Option.isSome_iff_exists.mp (hfound test List.mem_cons_self)
      have hrest := fun t ht => hfound t (List.mem_cons_of_mem test ht)
      have hdone := @configured_concat _ _ _ done href
      have hmove : done ++ test :: configTests = (done ++ [test]) ++ configTests := by
        rw [List.append_assoc, List.singleton_append]
      rw [hmove, List.length_cons]
      by_cases hmem : item ∈ configured items done
      · -- found before: a warning, and no item
        rw [if_pos hmem] at hdone
        obtain ⟨n, hok, hcount⟩ :=
          @ih hrest (done ++ [test]) (log ++ [(.warning, duplicateTests)])
        rw [hdone] at hok hcount
        refine ⟨n + 1, ?_, by omega⟩
        rw [selectTests_of_mem href hmem, hok, List.append_assoc log, List.singleton_append,
          ← List.replicate_succ]
      · -- new: it goes to the end
        rw [if_neg hmem] at hdone
        obtain ⟨n, hok, hcount⟩ := @ih hrest (done ++ [test]) log
        rw [hdone] at hok hcount
        rw [List.length_append, List.length_singleton] at hcount
        refine ⟨n, ?_, by omega⟩
        rw [selectTests_of_notMem href hmem, hok]

/-- A test that refers to no item ends the loop. -/
theorem selectTests_error {configTests : List String}
    (h : ∃ test ∈ configTests, refersTo items test = none) :
    ∃ test ∈ configTests, refersTo items test = none ∧ ∀ s, ∃ s', selectTests items configTests s
      = .error (.assertionError ("Requested test: " ++ test ++ " not found!")) s' := by
  induction configTests with
  | nil => exact absurd h (by simp)
  | cons test configTests ih =>
      cases href : refersTo items test with
      | none =>
          refine ⟨test, List.mem_cons_self, href, fun s => ?_⟩
          obtain ⟨log, hlog⟩ := @indexOf_error _ _ s href
          exact ⟨_, run_bind_error hlog⟩
      | some item =>
          -- this test is found, so the missing one comes later
          have hrest : ∃ t ∈ configTests, refersTo items t = none := by
            obtain ⟨t, ht, hnone⟩ := h
            rcases List.mem_cons.mp ht with rfl | ht
            · exact absurd (href.symm.trans hnone) (by simp)
            · exact ⟨t, ht, hnone⟩
          obtain ⟨t, ht, hnone, hraises⟩ := ih hrest
          refine ⟨t, List.mem_cons_of_mem test ht, hnone, fun s => ?_⟩
          by_cases hmem : item ∈ s.items
          · rw [selectTests_of_mem href hmem]
            exact hraises _
          · rw [selectTests_of_notMem href hmem]
            exact hraises _

/-! ## The hook -/

section

variable {order : SetOrder String} {files : Files} {path : String} {configData : ConfigData}
  {testList : List String}

/-- Without a list of tests every collected one is run. -/
theorem hook_of_noList (hload : files.load (files.abspath path) = some (.ok configData))
    (hlist : configData.testList = none ∨ configData.testList = some none) :
    pytestCollectionModifyitems order files (some path) s = .ok () s := by
  unfold pytestCollectionModifyitems
  dsimp only
  rw [hload]
  dsimp only
  rcases hlist with hlist | hlist
  · rw [hlist]
    rfl
  · rw [hlist]
    rfl

/-- A list of tests is gone through as a set, and a warning says if it has repetitions. -/
theorem hook_of_list (hload : files.load (files.abspath path) = some (.ok configData))
    (hlist : configData.testList = some (some testList)) :
    pytestCollectionModifyitems order files (some path) s
      = selectTests s.items (order.toList testList)
        ⟨[], s.log ++ if testList.Nodup then [] else [(.warning, duplicateTests)]⟩ := by
  have hlen := (order.enumerates testList).length_eq_iff
  unfold pytestCollectionModifyitems
  dsimp only
  rw [hload]
  dsimp only
  rw [hlist]
  dsimp only
  by_cases hnodup : testList.Nodup
  · rw [if_neg (not_not.mpr (hlen.mpr hnodup)), if_pos hnodup, List.append_nil]
    rfl
  · rw [if_pos (hlen.not.mpr hnodup), if_neg hnodup]
    rfl

variable {log : List (Level × String)}

/-- **A list whose tests are all found** leaves the items of its set, in the order of that. -/
theorem hook_ok (hload : files.load (files.abspath path) = some (.ok configData))
    (hlist : configData.testList = some (some testList))
    (hfound : ∀ test ∈ testList, (refersTo items test).isSome) :
    ∃ n, pytestCollectionModifyitems order files (some path) ⟨items, log⟩
        = .ok () ⟨configured items (order.toList testList),
          log ++ (if testList.Nodup then [] else [(.warning, duplicateTests)])
            ++ List.replicate n (.warning, duplicateTests)⟩
      ∧ n + (configured items (order.toList testList)).length = (order.toList testList).length := by
  have hset := order.enumerates testList
  obtain ⟨n, hok, hcount⟩ := @selectTests_ok items (order.toList testList)
    (fun test htest => hfound test ((hset.mem_iff test).mp htest)) []
    (log ++ if testList.Nodup then [] else [(.warning, duplicateTests)])
  rw [List.nil_append] at hok hcount
  refine ⟨n, ?_, hcount.trans (Nat.zero_add _)⟩
  rw [hook_of_list hload hlist]
  exact hok

/-- **Each configured test is run once**, whatever the order. -/
theorem hook_perm (hload : files.load (files.abspath path) = some (.ok configData))
    (hlist : configData.testList = some (some testList))
    (hfound : ∀ test ∈ testList, (refersTo items test).isSome) :
    ∃ s', pytestCollectionModifyitems order files (some path) ⟨items, log⟩ = .ok () s'
      ∧ s'.items.Perm (configured items testList) := by
  obtain ⟨n, hok, _⟩ := @hook_ok items order files path configData testList log hload hlist hfound
  exact ⟨_, hok, (order.enumerates testList).filterMap_perm _⟩

/-- **A test that nothing was collected for** ends the hook. -/
theorem hook_error (hload : files.load (files.abspath path) = some (.ok configData))
    (hlist : configData.testList = some (some testList))
    (h : ∃ test ∈ testList, refersTo s.items test = none) :
    ∃ test ∈ testList, refersTo s.items test = none
      ∧ ∃ s', pytestCollectionModifyitems order files (some path) s
        = .error (.assertionError ("Requested test: " ++ test ++ " not found!")) s' := by
  have hset := order.enumerates testList
  obtain ⟨t, ht, hnone⟩ := h
  obtain ⟨test, htest, href, hraises⟩ :=
    selectTests_error ⟨t, (hset.mem_iff t).mpr ht, hnone⟩
  refine ⟨test, (hset.mem_iff test).mp htest, href, ?_⟩
  rw [hook_of_list hload hlist]
  exact hraises _

/-- **No warning** is given exactly if no two tests refer to the same item. -/
theorem hook_silent_iff (hload : files.load (files.abspath path) = some (.ok configData))
    (hlist : configData.testList = some (some testList))
    (hfound : ∀ test ∈ testList, (refersTo items test).isSome) :
    pytestCollectionModifyitems order files (some path) ⟨items, log⟩
        = .ok () ⟨configured items (order.toList testList), log⟩
      ↔ (testList.filterMap (refersTo items)).Nodup := by
  have hset := order.enumerates testList
  obtain ⟨n, hok, hcount⟩ := @hook_ok items order files path configData testList log hload hlist hfound
  have hlen : ((order.toList testList).filterMap (refersTo items)).length
      = (order.toList testList).length :=
    List.filterMap_length_eq_length.mpr fun test htest => hfound test ((hset.mem_iff test).mp htest)
  -- as many warnings as tests whose item another one refers to
  have hzero : n = 0 ↔ ((order.toList testList).filterMap (refersTo items)).Nodup := by
    rw [← (Enumerates.eraseDups _).length_eq_iff, hlen, ← hcount]
    unfold configured
    omega
  have hlog : log ++ (if testList.Nodup then [] else [(.warning, duplicateTests)])
      ++ List.replicate n (.warning, duplicateTests) = log ↔ testList.Nodup ∧ n = 0 := by
    by_cases hnodup : testList.Nodup
    · simp [hnodup]
    · simp [hnodup]
  rw [hok, EStateM.Result.ok.injEq, Session.mk.injEq, hlog, hzero]
  constructor
  · rintro ⟨_, _, hnodup, horder⟩
    exact ((hset.perm_of_nodup hnodup).filterMap _).nodup_iff.mp horder
  · intro h
    have hnodup := nodup_of_filterMap hfound h
    exact ⟨rfl, rfl, hnodup, ((hset.perm_of_nodup hnodup).filterMap _).nodup_iff.mpr h⟩

/-- The loop itself keeps the order: with a set in the order of the list, so would the hook. -/
theorem configured_eraseDups (hfound : ∀ test ∈ testList, (refersTo items test).isSome) :
    configured items testList.eraseDups = configured items testList := by
  induction testList using List.reverseRecOn with
  | nil => rfl
  | append_singleton tests test ih =>
      have hprev := ih fun t ht => hfound t (List.mem_append_left _ ht)
      obtain ⟨item, href⟩ := Option.isSome_iff_exists.mp
        (hfound test (List.mem_append_right _ List.mem_cons_self))
      rw [eraseDups_concat, configured_concat href]
      by_cases hmem : test ∈ tests
      · have hitem : item ∈ configured items tests :=
          List.mem_eraseDups.mpr (List.mem_filterMap.mpr ⟨test, hmem, href⟩)
        rw [if_pos hmem, if_pos hitem, hprev]
      · rw [if_neg hmem, configured_concat href, hprev]

/--
In whatever order a set is gone through, the hook leaves the items of the list, each once
and in the order of the list.
-/
def RunsInOrder (files : Files) (path : String) (items : List Item) (testList : List String) :
    Prop :=
  ∀ (order : SetOrder String) (log : List (Level × String)), ∃ log',
    pytestCollectionModifyitems order files (some path) ⟨items, log⟩
      = .ok () ⟨configured items testList, log'⟩

/--
**The configured order is kept exactly if there is none**: all tests of the list refer to
one item.

The list is made a set to drop repetitions, and a set has an order of its own. The loop itself
keeps whatever order it is given.
-/
theorem runsInOrder_iff (hload : files.load (files.abspath path) = some (.ok configData))
    (hlist : configData.testList = some (some testList))
    (hfound : ∀ test ∈ testList, ∃ item ∈ items, item.name = test ∨ item.nodeid = test) :
    RunsInOrder files path items testList
      ↔ ∀ t ∈ testList, ∀ u ∈ testList, refersTo items t = refersTo items u := by
  have hsome : ∀ test ∈ testList, (refersTo items test).isSome :=
    fun test htest => refersTo_isSome_iff.mpr (hfound test htest)
  rw [← forall_enumerates_iff hsome]
  constructor
  · intro h ys hys
    obtain ⟨log', hrun⟩ := h (SetOrder.ofEnumerates hys) []
    obtain ⟨n, hok, _⟩ := @hook_ok items (SetOrder.ofEnumerates hys) _ _ _ _ [] hload hlist hsome
    rw [SetOrder.ofEnumerates_toList, hrun] at hok
    injection hok with _ hstate
    exact (congrArg Session.items hstate).symm
  · intro h order log
    obtain ⟨n, hok, _⟩ := @hook_ok items order _ _ _ _ log hload hlist hsome
    have hsame : configured items (order.toList testList) = configured items testList :=
      h _ (order.enumerates testList)
    rw [hsame] at hok
    exact ⟨_, hok⟩

end

/-! ### On two tests -/

/-- Two of the example tests, as they are collected. -/
def exampleItems : List Item :=
  [⟨"test_example_config", "test_examples.py::test_example_config"⟩,
    ⟨"test_example_logging", "test_examples.py::test_example_logging"⟩]

/-- A configuration file at every path. -/
def configFile (testList : List String) : Files where
  abspath path := path
  load _ := some (.ok ⟨some (some testList)⟩)

/-- A name and the node id of the same test. -/
theorem runsInOrder_one : RunsInOrder
    (configFile ["test_example_logging", "test_examples.py::test_example_logging"]) "config.yml"
    exampleItems ["test_example_logging", "test_examples.py::test_example_logging"] :=
  (runsInOrder_iff rfl rfl (by decide)).mpr (by decide)

/-- Last occurrences, from the back. -/
def backwards : SetOrder String where
  toList xs := xs.reverse.eraseDups
  enumerates _ := ⟨nodup_eraseDups _, fun _ => List.mem_eraseDups.trans List.mem_reverse⟩

/-- Two tests by their names: a set may have them the other way round. -/
theorem not_runsInOrder_two : ¬ RunsInOrder
    (configFile ["test_example_config", "test_example_logging"]) "config.yml"
    exampleItems ["test_example_config", "test_example_logging"] := by
  intro h
  obtain ⟨log', hrun⟩ := h backwards []
  have hother : pytestCollectionModifyitems backwards
      (configFile ["test_example_config", "test_example_logging"]) (some "config.yml")
      ⟨exampleItems, []⟩ = .ok () ⟨exampleItems.reverse, []⟩ := rfl
  have hne : exampleItems.reverse
      ≠ configured exampleItems ["test_example_config", "test_example_logging"] := by decide
  rw [hother] at hrun
  injection hrun with _ hstate
  exact hne (congrArg Session.items hstate)

end Conftest

end LoneNvme
