import LoneNvme.PrpBuffer
import LoneNvme.SimConfig

/-!
# What a host discovers

`NVMeDeviceIdentifyData.initialize` against the simulated controller. Each identify command
gets a page of its own, the simulator copies its answer there, and the host takes it from
there when the command completes. Whatever was done with the controller before, the host
finds the controller, the namespaces and the UUIDs of the configuration.

A session may come first, any commands and any writes of the host. It leaves the queues idle
and the configuration as it was (`Configured.run`), and that is all the discovery needs: each
of its commands is then an exchange of its own (`Idle.exchange`).
-/

namespace LoneNvme

open Lib

/-- `IdentifyController()`. -/
def IdentifyController.command : Generic := { OPC := Identify.OPC, DW10 := 0x01 }

/-- `IdentifyUUIDList()`. -/
def IdentifyUUIDList.command : Generic := { OPC := Identify.OPC, DW10 := 0x17 }

/-- `command.DPTR.PRP` set to the addresses of a buffer. -/
def Generic.withPrp (command : Generic) (prp : PRP) : Generic :=
  { command with PRP1 := BitVec.ofNat 64 prp.prp1, PRP2 := BitVec.ofNat 64 prp.prp2 }

namespace NVSim

variable {cfg : RingsConfig} {nvsim nvsim' : NVSim} {command : Generic} {page : Nat} {i : Nat}
  {cqe : CQE} {data : List (BitVec 8)}

/-! ## One command -/

/--
`alloc` of a command that reads a page of data, the memory manager handing out `page`, and
`sync_cmd` of it but for the status check: completion, and what is in its `data_in`.
-/
def exchange (nvsim : NVSim) (page : Nat) (command : Generic) :
    Except Exc (NVSim × CQE × List (BitVec 8)) := do
  let prp ← PRP.new 4096 mps
  match prp.alloc nvsim.mem fun _ => PRP.pageAt mps page with
  | (prp, mem, .ok ()) =>
      let (nvsim, cqe) ← { nvsim with mem }.syncCmd adminCmdHandler 0 0 (command.withPrp prp)
      let data ← prp.getDataBuffer nvsim.mem
      return (nvsim, cqe, data)
  | (_, _, .error e) => .error e

/-- The buffer of one page at `page`. -/
def pageBuffer (page : Nat) : PRP where
  numBytes := 4096
  mps := mps
  prp1 := page
  memList := [PRP.pageAt mps page]

theorem alloc_pageBuffer (mem : Mem) (page : Nat) :
    PRP.alloc { numBytes := 4096, mps := mps } mem (fun _ => PRP.pageAt mps page)
      = (pageBuffer page, mem.store page (List.replicate mps 0), .ok ()) := by
  have hone : PRP.dataPages 4096 mps + PRP.listsNeeded 4096 mps = 1 := by decide
  unfold PRP.alloc
  exact if_pos hone

theorem laid_pageBuffer (mem : Mem) (page : Nat) : (pageBuffer page).Laid mem [page] :=
  .page (Nat.le_refl _) rfl rfl rfl

theorem pagesOk_pageBuffer (h : page ≠ 0 ∧ page < 2 ^ 64) :
    PRP.PagesOk mps (pageBuffer page).memList :=
  ⟨by simpa [pageBuffer, PRP.pageAt] using h.1, by simpa [pageBuffer, PRP.pageAt] using h.2,
    List.pairwise_singleton _ _⟩

/-- **The host's side**: it looks into its page once the command was answered. -/
theorem exchange_ok (hpage : page ≠ 0 ∧ page < 2 ^ 64) {mem : Mem}
    (hmem : nvsim.mem.store page (List.replicate mps 0) = mem)
    (hsync : { nvsim with mem }.syncCmd adminCmdHandler 0 0 (command.withPrp (pageBuffer page))
      = .ok (nvsim', cqe)) :
    nvsim.exchange page command = .ok (nvsim', cqe, nvsim'.mem.load page mps) := by
  have hget := (laid_pageBuffer nvsim'.mem page).getDataBuffer (show 0 < mps by decide)
    (pagesOk_pageBuffer hpage)
  have hload : PRP.gather mps nvsim'.mem [PRP.pageAt mps page] = nvsim'.mem.load page mps :=
    List.append_nil _
  unfold exchange
  rw [PRP.new_ok (by decide) (by decide)]
  dsimp only [bind, Except.bind]
  rw [alloc_pageBuffer, hmem]
  dsimp only
  rw [hsync]
  dsimp only
  rw [hget]
  exact congrArg (fun data => Except.ok (nvsim', cqe, data)) hload

/-- **The simulator's side**: it copies its answer into the page, if it has one. -/
theorem NVSimIdentify_answered {answer : Option (List (BitVec 8))} {statusCode c : Nat}
    (hpage : page ≠ 0 ∧ page < 2 ^ 64)
    (hanswer : nvsim.identifyAnswer (command.withPrp (pageBuffer page)) = (answer, statusCode))
    (hlen : ∀ data, answer = some data → data.length = 4096) :
    nvsim.NVSimIdentify (command.withPrp (pageBuffer page)) i c
      = { nvsim with mem := answer.elim nvsim.mem (nvsim.mem.store page) }.complete command.CID i c
          statusCode := by
  obtain ⟨other, hattach, _, hset⟩ := (laid_pageBuffer nvsim.mem page).other
    (show 0 < mps by decide) (show 0 < 4096 by decide) (pagesOk_pageBuffer hpage)
  -- the simulator finds the page at the address in the command
  have hptr : (command.withPrp (pageBuffer page)).PRP1.toNat = page := by
    show (BitVec.ofNat 64 page).toNat = page
    rw [BitVec.toNat_ofNat, Nat.mod_eq_of_lt hpage.2]
  have hattach' : PRP.attach 4096 mps nvsim.mem page = .ok other := hattach
  unfold NVSimIdentify
  rw [hptr, hattach', hanswer]
  dsimp only [bind, Except.bind]
  cases answer with
  | none => rfl
  | some data =>
      have hdata := hlen data rfl
      have hfill := hset data (Or.inl (by rw [hdata]; exact Nat.dvd_refl _))
      have htake : data.take mps = data := List.take_of_length_le (Nat.le_of_eq hdata)
      dsimp only
      rw [hfill]
      show NVSim.complete { nvsim with mem := nvsim.mem.store page (data.take mps) } _ _ _ _ = _
      rw [htake]
      rfl

/--
**An identify command** is always answered: its page holds the data of the answer, or zeros
if there is none, and the status is that of the answer.
-/
theorem Idle.exchange (hcfg : cfg.Operable) (h : Idle cfg nvsim) (hpage : page ≠ 0 ∧ page < 2 ^ 64)
    (hopc : command.OPC = Identify.OPC)
    (hlen : ∀ data, (nvsim.identifyAnswer command).1 = some data → data.length = 4096) :
    ∃ nvsim' cqe, nvsim.exchange page command
        = .ok (nvsim', cqe, (nvsim.identifyAnswer command).1.getD (List.replicate 4096 0))
      ∧ cqe.SF.SC = BitVec.ofNat 8 (nvsim.identifyAnswer command).2 ∧ cqe.SF.SCT = 0
      ∧ Idle cfg nvsim' ∧ nvsim'.core = nvsim.core := by
  generalize hmem : nvsim.mem.store page (List.replicate mps 0) = mem
  rcases hanswer : nvsim.identifyAnswer command with ⟨answer, statusCode⟩
  rw [hanswer] at hlen
  have hhandler : adminCmdHandler (command.withPrp (pageBuffer page)).OPC = NVSimIdentify := by
    show adminCmdHandler command.OPC = _
    rw [hopc]
    rfl
  obtain ⟨rings, _, hsync⟩ := @syncCmd_answer cfg { nvsim with mem } 0 adminCmdHandler h.idle
    hcfg.usable hcfg.headsFit h.rings hcfg.admin (command.withPrp (pageBuffer page))
  rw [hcfg.adminCq] at hsync
  obtain ⟨rings', cqe, hok, hrings, hidle, _, hsc, _, hsct⟩ :=
    hsync { nvsim with mem := answer.elim mem (mem.store page) } statusCode 0 (by
      rw [hhandler]
      exact @NVSimIdentify_answered { nvsim with mem, rings } command page 0 answer statusCode 0
        hpage hanswer hlen)
  -- what the host reads back: the answer, or the zeros the page was filled with
  have hdata : Mem.load (answer.elim mem (mem.store page)) page mps
      = answer.getD (List.replicate 4096 0) := by
    cases answer with
    | none =>
        have hzeros := Mem.load_store_self nvsim.mem page (List.replicate mps 0)
        rw [hmem, List.length_replicate] at hzeros
        exact hzeros
    | some data =>
        have hback := Mem.load_store_self mem page data
        rw [hlen data rfl] at hback
        exact hback
  refine ⟨{ nvsim with mem := answer.elim mem (mem.store page), rings := rings' }, cqe, ?_, hsc, hsct,
    ⟨hrings, hidle⟩, rfl⟩
  rw [exchange_ok hpage hmem hok, ← hdata]

end NVSim

/-! ## All that is asked -/

open NVSim GenericNVMeNVSimConfig in
/--
A host and the simulated controller, configured with `namespaces`. `page` and `cid` are what
the memory manager and the counter of command ids give out next.
-/
structure IdentifyingHost (cfg : RingsConfig) (namespaces : List NVSimNamespace)
    (listData : List (BitVec 8)) where
  nvsim : NVSim
  page : Nat → Nat
  cid : Nat → BitVec 16
  operable : cfg.Operable
  idle : Idle cfg nvsim
  configured : Configured namespaces nvsim
  list : nvsim.idNsListData = listData
  pages : ∀ k, page k ≠ 0 ∧ page k < 2 ^ 64

open NVSim GenericNVMeNVSimConfig

/-- The ids of `n` namespaces. -/
def namespaceIds (n : Nat) : List Nat := (List.range n).map (· + 1)

theorem mem_namespaceIds {n nsId : Nat} : nsId ∈ namespaceIds n ↔ 1 ≤ nsId ∧ nsId ≤ n := by
  simp only [namespaceIds, List.mem_map, List.mem_range]
  constructor
  · rintro ⟨k, hk, rfl⟩
    omega
  · rintro ⟨h1, hn⟩
    exact ⟨nsId - 1, by omega, by omega⟩

/-- The data of namespace `nsId`. -/
def namespaceData (namespaces : List NVSimNamespace) (nsId : Nat) : List (BitVec 8) :=
  match namespaces[nsId - 1]? with
  | some ns => IdentifyNamespaceData.new ns.numLbas ns.blockSize
  | none => []

theorem namespaceData_eq {namespaces : List NVSimNamespace} {nsId : Nat} {ns : NVSimNamespace}
    (h : namespaces[nsId - 1]? = some ns) :
    namespaceData namespaces nsId = IdentifyNamespaceData.new ns.numLbas ns.blockSize := by
  rw [namespaceData, h]

/-- The controller's entry of a namespace. -/
theorem GenericNVMeNVSimConfig.Configured.namespaceAt {namespaces : List NVSimNamespace} {nvsim : NVSim}
    (h : Configured namespaces nvsim) {nsId : Nat} (hnsId : nsId ∈ namespaceIds namespaces.length) :
    ∃ ns, nvsim.namespaceAt nsId = .ok (some ns) ∧ ns.idNsData = namespaceData namespaces nsId := by
  obtain ⟨h1, hn⟩ := mem_namespaceIds.mp hnsId
  have hlen := congrArg List.length h.namespaces
  rw [List.length_map, List.length_map] at hlen
  have hlt : nsId - 1 < nvsim.namespaces.length := by omega
  have hlt' : nsId - 1 < namespaces.length := by omega
  have hat := congrArg (fun l => l[nsId - 1]?) h.namespaces
  simp only [List.getElem?_map, List.getElem?_eq_getElem hlt, List.getElem?_eq_getElem hlt',
    Option.map_some, Option.some.injEq] at hat
  refine ⟨nvsim.namespaces[nsId - 1], ?_, ?_⟩
  · rw [NVSim.namespaceAt, if_neg (by omega), List.getElem?_eq_getElem hlt]
  · rw [namespaceData_eq (List.getElem?_eq_getElem hlt')]
    exact congrArg (fun d => d.2.2) hat

namespace IdentifyingHost

variable {cfg : RingsConfig} {namespaces : List NVSimNamespace} {listData : List (BitVec 8)}
  {command : Generic} {host : IdentifyingHost cfg namespaces listData}

/-- Every answer is a page. -/
theorem length_answer (host : IdentifyingHost cfg namespaces listData) (command : Generic)
    (data : List (BitVec 8)) (h : (host.nvsim.identifyAnswer command).1 = some data) :
    data.length = 4096 := by
  have hconf := host.configured
  unfold identifyAnswer at h
  dsimp only at h
  split at h
  · rw [← Option.some.inj h, hconf.controller, IdentifyControllerData.length_new]
  split at h
  · split at h
    · rename_i ns hns
      -- a namespace of the controller is one of the configuration
      rw [← Option.some.inj h]
      have hget := (namespaceAt_iff.mp hns).2
      have hmem : ns.description ∈ namespaces.map fun ns => ns.identified.description := by
        rw [← hconf.namespaces]
        exact List.mem_map_of_mem (List.mem_of_getElem? hget)
      obtain ⟨ns', _, hns'⟩ := List.mem_map.mp hmem
      have hdata : IdentifyNamespaceData.new ns'.numLbas ns'.blockSize = ns.idNsData :=
        congrArg (fun d => d.2.2) hns'
      rw [← hdata, IdentifyNamespaceData.length_new]
    · exact absurd h (by simp)
  split at h
  · rw [← Option.some.inj h, hconf.length_list]
  split at h
  · rw [← Option.some.inj h, hconf.uuids, IdentifyUUIDListData.length_new]
  · exact absurd h (by simp)

/-- What an exchange keeps. -/
theorem exchange_kept (host : IdentifyingHost cfg namespaces listData) (hopc : command.OPC = Identify.OPC)
    {nvsim' : NVSim} {cqe : CQE} {data : List (BitVec 8)}
    (h : host.nvsim.exchange (host.page 0) command = .ok (nvsim', cqe, data)) :
    Idle cfg nvsim' ∧ Configured namespaces nvsim' ∧ nvsim'.idNsListData = listData := by
  obtain ⟨w, cqe', hok, _, _, hidle, hcore⟩ := host.idle.exchange host.operable (host.pages 0) hopc
    (host.length_answer command)
  obtain rfl : w = nvsim' := congrArg Prod.fst (Except.ok.inj (hok.symm.trans h))
  exact ⟨hidle, host.configured.congr hcore rfl, (congrArg Core.idNsListData hcore).trans host.list⟩

/-- `alloc` and `sync_cmd` of an identify command, without the check of the status. -/
def send (command : Generic) :
    EStateM Exc (IdentifyingHost cfg namespaces listData) (CQE × List (BitVec 8)) := fun host =>
  if hopc : command.OPC = Identify.OPC then
    match h : host.nvsim.exchange (host.page 0) { command with CID := host.cid 0 } with
    | .ok (nvsim, cqe, data) =>
        have hkept := @exchange_kept _ _ _ { command with CID := host.cid 0 } host hopc _ _ _ h
        .ok (cqe, data) {
          nvsim
          page := fun k => host.page (k + 1)
          cid := fun k => host.cid (k + 1)
          operable := host.operable
          idle := hkept.1
          configured := hkept.2.1
          list := hkept.2.2
          pages := fun k => host.pages (k + 1) }
    | .error e => .error e host
  else .error (.assertionError "no identify command") host

/-- `alloc` and `sync_cmd` of an identify command: what they leave in its `data_in`. -/
def identify (command : Generic) :
    EStateM Exc (IdentifyingHost cfg namespaces listData) (List (BitVec 8)) := do
  let (cqe, dataIn) ← send command
  if cqe.SF.SCT = 0 ∧ cqe.SF.SC = 0 then return dataIn
  else throw (.custom "NVMeStatusCodeException" "")

/-- `identify_uuid_list`: a status that is no success is only logged. -/
def identifyUuidList : EStateM Exc (IdentifyingHost cfg namespaces listData) (List (BitVec 8)) := do
  let (_, dataIn) ← send IdentifyUUIDList.command
  return dataIn

/-- `NVMeDeviceIdentifyData.initialize`: `controller`, `namespace` and `namespaces`, `uuid_list`. -/
def initializeIdData {Decimal : Type} (roundedQuotient : Nat → Nat → Decimal) :
    EStateM Exc (IdentifyingHost cfg namespaces listData)
      (List (BitVec 8) × (List (BitVec 8) × List (Option (NamespaceInfo Decimal)))
        × List (BitVec 8)) := do
  let controller ← identify IdentifyController.command
  let found ← NVMeDeviceIdentifyData.identifyNamespaces roundedQuotient identify
  let uuidList ← identifyUuidList
  return (controller, found, uuidList)

/-- **What a command brings back.** -/
theorem send_spec (host : IdentifyingHost cfg namespaces listData) (hopc : command.OPC = Identify.OPC) :
    ∃ host' cqe, send command host
        = .ok (cqe, (host.nvsim.identifyAnswer command).1.getD (List.replicate 4096 0)) host'
      ∧ cqe.SF.SC = BitVec.ofNat 8 (host.nvsim.identifyAnswer command).2 ∧ cqe.SF.SCT = 0 := by
  obtain ⟨nvsim', cqe, hok, hsc, hsct, _⟩ :=
    @Idle.exchange cfg host.nvsim { command with CID := host.cid 0 } (host.page 0) host.operable
      host.idle (host.pages 0) hopc (host.length_answer _)
  unfold send
  rw [dif_pos hopc]
  split
  · rename_i nvsim'' cqe' data h
    rw [hok] at h
    cases h
    exact ⟨_, _, rfl, hsc, hsct⟩
  · rename_i e h
    rw [hok] at h
    exact nomatch h

theorem identify_spec (host : IdentifyingHost cfg namespaces listData) (hopc : command.OPC = Identify.OPC)
    {data : List (BitVec 8)} (hanswer : host.nvsim.identifyAnswer command
      = (some data, StatusCodes.successfulCompletion)) :
    ∃ host', identify command host = .ok data host' := by
  obtain ⟨host', cqe, hsend, hsc, hsct⟩ := host.send_spec hopc
  rw [hanswer] at hsend hsc
  refine ⟨host', ?_⟩
  rw [identify, run_bind_ok hsend]
  dsimp only
  rw [if_pos ⟨hsct, hsc⟩]
  rfl

/-! ### The answers -/

theorem answer_controller (host : IdentifyingHost cfg namespaces listData) :
    host.nvsim.identifyAnswer IdentifyController.command
      = (some IdentifyControllerData.new, StatusCodes.successfulCompletion) :=
  congrArg (fun data => (some data, StatusCodes.successfulCompletion)) host.configured.controller

theorem answer_list (host : IdentifyingHost cfg namespaces listData) :
    host.nvsim.identifyAnswer IdentifyNamespaceList.command
      = (some listData, StatusCodes.successfulCompletion) :=
  congrArg (fun data => (some data, StatusCodes.successfulCompletion)) host.list

theorem answer_uuids (host : IdentifyingHost cfg namespaces listData) :
    host.nvsim.identifyAnswer IdentifyUUIDList.command
      = (some IdentifyUUIDListData.new, StatusCodes.successfulCompletion) :=
  congrArg (fun data => (some data, StatusCodes.successfulCompletion)) host.configured.uuids

theorem answer_namespace (host : IdentifyingHost cfg namespaces listData)
    (hle : namespaces.length ≤ 1024) {nsId : Nat} (h : nsId ∈ namespaceIds namespaces.length) :
    host.nvsim.identifyAnswer (IdentifyNamespace.command nsId)
      = (some (namespaceData namespaces nsId), StatusCodes.successfulCompletion) := by
  obtain ⟨ns, hns, hdata⟩ := host.configured.namespaceAt h
  have hlt : nsId < 2 ^ 32 := by
    have hn := (mem_namespaceIds.mp h).2
    omega
  have hnsid : (IdentifyNamespace.command nsId).NSID.toNat = nsId := by
    show (BitVec.ofNat 32 nsId).toNat = nsId
    rw [BitVec.toNat_ofNat, Nat.mod_eq_of_lt hlt]
  have hcns : Identify.CNS (IdentifyNamespace.command nsId) = 0 := rfl
  unfold identifyAnswer
  rw [hcns]
  dsimp only
  rw [if_neg (by decide), if_pos rfl, hnsid, hns, ← hdata]

/-- **The simulator answers as a device with its namespaces does.** -/
theorem answers (hle : namespaces.length ≤ 1024) (hlist : IdentifyNamespaceList.identifiers listData
      = IdentifyNamespaceList.numbered namespaces.length) :
    NVMeDeviceIdentifyData.Answers (@identify cfg namespaces listData) listData
      (namespaceData namespaces) (namespaceIds namespaces.length) where
  list host := host.identify_spec rfl host.answer_list
  answer nsId h host := host.identify_spec rfl (host.answer_namespace hle h)
  padded := by
    rw [hlist, namespaceIds, List.length_map, List.length_range]
    rfl
  ascending := by
    refine List.pairwise_map.mpr (List.pairwise_lt_range.imp fun h => ?_)
    omega
  nonzero nsId h := by
    have h1 := (mem_namespaceIds.mp h).1
    omega
  -- the block size is 512 or 4096, so the exponent is not 0
  lbads nsId h := by
    obtain ⟨h1, hn⟩ := mem_namespaceIds.mp h
    have hlt : nsId - 1 < namespaces.length := by omega
    rw [namespaceData_eq (List.getElem?_eq_getElem hlt)]
    obtain ⟨_, hsize⟩ := IdentifyNamespaceData.currentFormat_new namespaces[nsId - 1].numLbas _
      namespaces[nsId - 1].supported
    intro h0
    rw [h0] at hsize
    have hsupported := namespaces[nsId - 1].supported
    rw [← hsize] at hsupported
    omega

/-- The entry that namespace `nsId` should have: its sizes, and the units to show them in. -/
structure Shows {Decimal : Type} (roundedQuotient : Nat → Nat → Decimal)
    (info : NamespaceInfo Decimal) (nsId : Nat) (ns : NVSimNamespace) : Prop where
  nsid : info.NSID = nsId
  nsze : info.nsze = ns.numLbas % 2 ^ 64
  nuse : info.nuse = 0
  lbaDsBytes : info.lbaDsBytes = ns.blockSize
  msBytes : info.msBytes = 0
  /-- Both sizes are quotients by the unit of the total. -/
  sizes : ∃ unit, NVMeDeviceIdentifyData.DecimalUnit (ns.blockSize * (ns.numLbas % 2 ^ 64)) unit
    ∧ info.nsUnit = unit.1
    ∧ info.nsTotal = roundedQuotient (ns.blockSize * (ns.numLbas % 2 ^ 64)) unit.2
    ∧ info.nsUsage = roundedQuotient 0 unit.2
  lba : info.lbaUnit = "B" ∧ info.lbaSize = ns.blockSize ∧ ns.blockSize ≤ 1024
    ∨ info.lbaUnit = "KiB" ∧ info.lbaSize * 1024 = ns.blockSize ∧ 1024 < ns.blockSize

/-- The entries that a host should have. -/
structure Discovered {Decimal : Type} (roundedQuotient : Nat → Nat → Decimal)
    (namespaces : List NVSimNamespace) (found : List (Option (NamespaceInfo Decimal))) : Prop where
  /-- A namespace is found under its number. -/
  listed : ∀ k ns, namespaces[k]? = some ns → ∃ info, found[k + 1]? = some (some info)
    ∧ Shows roundedQuotient info (k + 1) ns
  /-- Nothing else is found. -/
  others : ∀ nsId info, found[nsId]? = some (some info) → 1 ≤ nsId ∧ nsId ≤ namespaces.length

variable {Decimal : Type} {roundedQuotient : Nat → Nat → Decimal}

/-- **The entry made of the data of a namespace** shows it. -/
theorem shows_entry {nsId : Nat} {ns : NVSimNamespace}
    (hdata : namespaceData namespaces nsId = IdentifyNamespaceData.new ns.numLbas ns.blockSize) :
    Shows roundedQuotient (NVMeDeviceIdentifyData.entry roundedQuotient (namespaceData namespaces)
      nsId) nsId ns := by
  obtain ⟨hms, hsize⟩ := IdentifyNamespaceData.currentFormat_new ns.numLbas _ ns.supported
  have hnsze := IdentifyNamespaceData.NSZE_new ns.numLbas ns.blockSize
  have hnuse := IdentifyNamespaceData.NUSE_new ns.numLbas ns.blockSize
  rw [← hdata] at hms hsize hnsze hnuse
  -- the total in bytes is that of the configuration, and the usage is nothing
  obtain ⟨unit, hunit, hspec⟩ := NVMeDeviceIdentifyData.nsSize_spec roundedQuotient ns.blockSize
    (ns.numLbas % 2 ^ 64) 0
  have hsizes := @NVMeDeviceIdentifyData.entry_sizes Decimal roundedQuotient
    (namespaceData namespaces) nsId
  have hlba := @NVMeDeviceIdentifyData.entry_lba Decimal roundedQuotient
    (namespaceData namespaces) nsId
  rw [hsize, hnsze, hnuse, hspec] at hsizes
  rw [hsize] at hlba
  obtain ⟨husage, htotal, hunitName⟩ : _ ∧ _ ∧ _ :=
    ⟨(Prod.mk.inj hsizes).1, Prod.mk.inj (Prod.mk.inj hsizes).2⟩
  obtain ⟨hlbaSize, hlbaUnit⟩ := Prod.mk.inj hlba
  refine ⟨rfl, hnsze, hnuse, hsize, hms, ⟨unit, hunit, hunitName, htotal, husage⟩, ?_⟩
  rw [hlbaSize, hlbaUnit]
  rcases ns.supported with h512 | h4096
  · rw [h512]
    exact Or.inl ⟨rfl, rfl, by decide⟩
  · rw [h4096]
    exact Or.inr ⟨rfl, rfl, by decide⟩

theorem identifyNamespaces_spec (host : IdentifyingHost cfg namespaces listData)
    (hlt : namespaces.length < 1024) : ∃ found host',
      NVMeDeviceIdentifyData.identifyNamespaces roundedQuotient identify host
        = .ok (listData, found) host' ∧ Discovered roundedQuotient namespaces found := by
  have hlist : IdentifyNamespaceList.identifiers listData
      = IdentifyNamespaceList.numbered namespaces.length := by
    rw [← host.list]
    exact host.configured.list
  have hanswers := @answers cfg namespaces listData (Nat.le_of_lt hlt) hlist
  -- the simulator formats a namespace with index 0 or 1, so the whole byte is the index
  have hsmall : ∀ nsId ∈ namespaceIds namespaces.length,
      NVMeDeviceIdentifyData.Small (namespaceData namespaces) nsId := by
    intro nsId h
    obtain ⟨h1, hn⟩ := mem_namespaceIds.mp h
    have hat : nsId - 1 < namespaces.length := by omega
    refine ⟨by omega, ?_⟩
    rw [namespaceData_eq (List.getElem?_eq_getElem hat), IdentifyNamespaceData.FLBAS_new]
    split <;> decide
  obtain ⟨host₁, hhost₁⟩ := hanswers.list host
  obtain ⟨found, host', hrun, hlisted, hothers⟩ :=
    @NVMeDeviceIdentifyData.addNamespaces_of_small Decimal _ roundedQuotient identify
      (namespaceData namespaces) _ _ host₁ hanswers.answer hanswers.lbads List.length_replicate hsmall
  refine ⟨found, host', ?_, fun k ns hk => ?_, fun nsId info hinfo => ?_⟩
  · rw [NVMeDeviceIdentifyData.identifyNamespaces, run_bind_ok hhost₁, hanswers.filter_identifiers,
      run_bind_ok hrun]
    rfl
  · have hlen := (List.getElem?_eq_some_iff.mp hk).1
    have hdata : namespaceData namespaces (k + 1) = IdentifyNamespaceData.new ns.numLbas ns.blockSize :=
      namespaceData_eq hk
    exact ⟨_, hlisted (k + 1) (mem_namespaceIds.mpr ⟨by omega, by omega⟩), shows_entry hdata⟩
  · -- only the ids of the list are visited
    by_contra hnot
    rw [hothers nsId (fun h => hnot (mem_namespaceIds.mp h)), List.getElem?_replicate] at hinfo
    split at hinfo <;> simp at hinfo

theorem identifyUuidList_spec (host : IdentifyingHost cfg namespaces listData) :
    ∃ host', identifyUuidList host = .ok IdentifyUUIDListData.new host' := by
  obtain ⟨host', cqe, hsend, _⟩ := @send_spec _ _ _ IdentifyUUIDList.command host rfl
  rw [host.answer_uuids, Option.getD_some] at hsend
  refine ⟨host', ?_⟩
  rw [identifyUuidList, run_bind_ok hsend]
  rfl

/-- **All there is to identify.** -/
theorem initializeIdData_spec (host : IdentifyingHost cfg namespaces listData)
    (hlt : namespaces.length < 1024) : ∃ found host', initializeIdData roundedQuotient host
        = .ok (IdentifyControllerData.new, (listData, found), IdentifyUUIDListData.new) host'
      ∧ Discovered roundedQuotient namespaces found := by
  obtain ⟨host₁, h₁⟩ := host.identify_spec rfl host.answer_controller
  obtain ⟨found, host₂, h₂, hfound⟩ := @identifyNamespaces_spec _ _ _ _ roundedQuotient host₁ hlt
  obtain ⟨host', h'⟩ := host₂.identifyUuidList_spec
  refine ⟨found, host', ?_, hfound⟩
  rw [initializeIdData, run_bind_ok h₁, run_bind_ok h₂, run_bind_ok h']
  rfl

/-- **One namespace too many**: the id 1024 has no place in the host's list. -/
theorem identifyNamespaces_full (host : IdentifyingHost cfg namespaces listData)
    (hlen : namespaces.length = 1024) : ∃ e host',
      NVMeDeviceIdentifyData.identifyNamespaces roundedQuotient identify host = .error e host' := by
  have hlist : IdentifyNamespaceList.identifiers listData
      = IdentifyNamespaceList.numbered namespaces.length := by
    rw [← host.list]
    exact host.configured.list
  refine (@answers cfg namespaces listData (Nat.le_of_eq hlen) hlist).raises
    ⟨1024, mem_namespaceIds.mpr ⟨by decide, Nat.le_of_eq hlen.symm⟩, fun hsmall => ?_⟩ host
  exact absurd hsmall.1 (by decide)

/--
**A host discovers what the simulator was configured with**: whatever admin and IO commands
were sent before, `initialize` returns, with the data of the controller and with exactly the
namespaces there are, each with its number of blocks, its block size, and its sizes in the
units that fit. There may be 1023 namespaces; with one more it raises, since the host's table
ends there.
-/
theorem initializeIdData_of_run (hcfg : cfg.Operable) {blank start nvsim : NVSim}
    (hconfig : GenericNVMeNVSimConfig.init blank namespaces = .ok start)
    (hrings : Rings.Init cfg start.rings) (hlen : namespaces.length ≤ 1024) {ops : List SessionOp}
    (hrun : (session cfg).run start ops = some nvsim) (page : Nat → Nat) (cid : Nat → BitVec 16)
    (hpages : ∀ k, page k ≠ 0 ∧ page k < 2 ^ 64) (roundedQuotient : Nat → Nat → Decimal) :
    ∃ host : IdentifyingHost cfg namespaces start.idNsListData,
      host.nvsim = nvsim ∧ host.page = page ∧ host.cid = cid
        ∧ if namespaces.length < 1024 then
            ∃ found host', initializeIdData roundedQuotient host = .ok (IdentifyControllerData.new,
                (start.idNsListData, found), IdentifyUUIDListData.new) host'
              ∧ Discovered roundedQuotient namespaces found
          else ∃ e host', initializeIdData roundedQuotient host = .error e host' := by
  obtain ⟨data, hinit, hstart⟩ := @GenericNVMeNVSimConfig.init_spec blank namespaces hlen
  obtain rfl := Except.ok.inj (hinit.symm.trans hconfig)
  obtain ⟨hidle, hconfigured, hlist⟩ := hstart.run hcfg (idle_init hrings) ops hrun
  refine ⟨⟨nvsim, page, cid, hcfg, hidle, hconfigured, hlist, hpages⟩, rfl, rfl, rfl, ?_⟩
  -- the host has no place for a namespace with id 1024
  by_cases hlt : namespaces.length < 1024
  · rw [if_pos hlt]
    exact initializeIdData_spec _ hlt
  · rw [if_neg hlt]
    obtain ⟨host₁, h₁⟩ := identify_spec (⟨nvsim, page, cid, hcfg, hidle, hconfigured, hlist, hpages⟩ :
      IdentifyingHost cfg namespaces _) rfl (answer_controller _)
    obtain ⟨e, host', he⟩ := @identifyNamespaces_full _ _ _ _ roundedQuotient host₁ (by omega)
    exact ⟨e, host', by rw [initializeIdData, run_bind_ok h₁, run_bind_error he]⟩

/-- Two namespaces, one of each block size, and a flush in between. -/
theorem initializeIdData_of_run_two : ∃ start nvsim,
    GenericNVMeNVSimConfig.init sessionStart [Stack.twoBlocks 512 (.inl rfl),
      Stack.twoBlocks 4096 (.inr rfl)] = .ok start
    ∧ (session twoPairs).run start [.io 1 { OPC := Flush.OPC, NSID := 2 }] = some nvsim
    ∧ ∃ host : IdentifyingHost twoPairs [Stack.twoBlocks 512 (.inl rfl), Stack.twoBlocks 4096 (.inr rfl)]
        start.idNsListData, host.nvsim = nvsim
      ∧ ∃ found host', initializeIdData (fun x y => x / y) host = .ok (IdentifyControllerData.new,
          (start.idNsListData, found), IdentifyUUIDListData.new) host'
        ∧ Discovered (fun x y => x / y)
          [Stack.twoBlocks 512 (.inl rfl), Stack.twoBlocks 4096 (.inr rfl)] found := by
  have hok : ((GenericNVMeNVSimConfig.init sessionStart [Stack.twoBlocks 512 (.inl rfl),
      Stack.twoBlocks 4096 (.inr rfl)]).toOption.bind fun start =>
        (session twoPairs).run start [.io 1 { OPC := Flush.OPC, NSID := 2 }]).isSome = true := by
    decide +kernel
  obtain ⟨nvsim, hrun⟩ := Option.isSome_iff_exists.mp hok
  obtain ⟨start, hstart, hrun⟩ := Option.bind_eq_some_iff.mp hrun
  have hconfig := toOption_eq_some hstart
  obtain ⟨_, hinit, _⟩ := @GenericNVMeNVSimConfig.init_spec sessionStart
    [Stack.twoBlocks 512 (.inl rfl), Stack.twoBlocks 4096 (.inr rfl)] (by decide)
  have hrings : Rings.Init twoPairs start.rings := by
    rw [← Except.ok.inj (hinit.symm.trans hconfig)]
    exact Rings.init_start twoPairs
  obtain ⟨host, hhost, _, _, hfound⟩ := initializeIdData_of_run operable_twoPairs hconfig hrings
    (by decide) hrun (fun _ => 0x9000) (fun _ => 7) (fun _ => by decide) (fun x y => x / y)
  rw [if_pos (by decide)] at hfound
  exact ⟨start, nvsim, hconfig, hrun, host, hhost, hfound⟩

end IdentifyingHost

end LoneNvme
