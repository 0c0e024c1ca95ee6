import LoneNvme.Registers
import LoneNvme.Lib.Lists

/-!
# The capability classes

A capability is a structure of plain fields and nested registers. Each nested register is
a class of its own, with its own `_base_offset_`, which `set_offsets` of the capability
has to assign.

The classes are given as the source declares them, field by field; their layout comes from
`Structures`. `Complete` says of a class that each of its nested registers is assigned an
offset, and is what the theorems about `init_capabilities` ask for.
-/

namespace LoneNvme

/-- An entry of `_fields_` of a capability. -/
inductive CapField where
  | int (d : FieldDecl)
  | reg (name : String) (cls : RegisterClass)

namespace CapField

/-- In the capability a nested register takes the bytes it has. -/
def decl : CapField → FieldDecl
  | int d => d
  | reg name cls => ⟨name, cls.size, none⟩

def register? : CapField → Option (String × RegisterClass)
  | int _ => none
  | reg name cls => some (name, cls)

end CapField

/--
A subclass of `PCICapability` or `PCICapabilityExt`. `setOffsets` says which nested class
`set_offsets` assigns, and the distance; the instance has its own offset already.
-/
structure CapabilityClass where
  name : String
  fields : List CapField
  setOffsets : List (String × Nat) := []

namespace PCICapabilityGen

def cls : CapabilityClass where
  name := "PCICapabilityGen"
  fields := [.int ⟨"CAP_ID", 1, none⟩, .int ⟨"NEXT_PTR", 1, none⟩, .int ⟨"CAP_REG", 2, none⟩]

end PCICapabilityGen

namespace PCICapPowerManagementInterface

def pc : RegisterClass where
  name := "Pc"
  fields := [⟨"VS", 2, some 3⟩, ⟨"PMEC", 2, some 1⟩, ⟨"RSVD_0", 2, some 1⟩, ⟨"DSI", 2, some 1⟩,
      ⟨"AUXC", 2, some 3⟩, ⟨"D1S", 2, some 1⟩, ⟨"D2S", 2, some 1⟩, ⟨"PSUP", 2, some 5⟩]
  valid := by decide

def pmcs : RegisterClass where
  name := "Pmcs"
  fields := [⟨"PS", 2, some 2⟩, ⟨"RSVD_0", 2, some 1⟩, ⟨"NSFRST", 2, some 1⟩,
      ⟨"RSVD_1", 2, some 4⟩, ⟨"PMEE", 2, some 1⟩, ⟨"DSE", 2, some 4⟩, ⟨"DSC", 2, some 2⟩,
      ⟨"PMES", 2, some 1⟩]
  valid := by decide

def cls : CapabilityClass where
  name := "PCICapPowerManagementInterface"
  fields := [.int ⟨"CAP_ID", 1, none⟩, .int ⟨"NEXT_PTR", 1, none⟩, .reg "PC" pc, .reg "PMCS" pmcs]
  setOffsets := [("Pc", 2), ("Pmcs", 4)]

end PCICapPowerManagementInterface

namespace PCICapMSI

def mc : RegisterClass where
  name := "Mc"
  fields := [⟨"MSIE", 2, some 1⟩, ⟨"MMC", 2, some 3⟩, ⟨"MME", 2, some 3⟩, ⟨"C64", 2, some 1⟩,
      ⟨"PVM", 2, some 1⟩, ⟨"RSVD_0", 2, some 7⟩]
  valid := by decide

def ma : RegisterClass where
  name := "Ma"
  fields := [⟨"RSVD_0", 4, some 2⟩, ⟨"ADDR", 4, some 30⟩]
  valid := by decide

def mua : RegisterClass where
  name := "Mua"
  fields := [⟨"UADDR", 4, none⟩]
  valid := by decide

def md : RegisterClass where
  name := "Md"
  fields := [⟨"DATA", 2, none⟩]
  valid := by decide

def mmask : RegisterClass where
  name := "Mmask"
  fields := [⟨"MASK", 4, none⟩]
  valid := by decide

def mpend : RegisterClass where
  name := "Mpend"
  fields := [⟨"PEND", 4, none⟩]
  valid := by decide

def cls : CapabilityClass where
  name := "PCICapMSI"
  fields := [.int ⟨"CAP_ID", 1, none⟩, .int ⟨"NEXT_PTR", 1, none⟩, .reg "MC" mc, .reg "MA" ma,
      .reg "MUA" mua, .reg "MD" md, .reg "MMASK" mmask, .reg "MPEND" mpend]
  setOffsets := [("Mc", 2)]

end PCICapMSI

namespace PCICapMSIX

def mxc : RegisterClass where
  name := "Mxc"
  fields := [⟨"TS", 2, some 11⟩, ⟨"RSVD_0", 2, some 3⟩, ⟨"FM", 2, some 1⟩, ⟨"MXE", 2, some 1⟩]
  valid := by decide

def mtab : RegisterClass where
  name := "Mtab"
  fields := [⟨"TBIR", 4, some 3⟩, ⟨"TO", 4, some 29⟩]
  valid := by decide

def mpba : RegisterClass where
  name := "Mpba"
  fields := [⟨"PBIR", 4, some 3⟩, ⟨"PBAO", 4, some 29⟩]
  valid := by decide

def cls : CapabilityClass where
  name := "PCICapMSIX"
  fields := [.int ⟨"CAP_ID", 1, none⟩, .int ⟨"NEXT_PTR", 1, none⟩, .reg "MXC" mxc,
      .reg "MTAB" mtab, .reg "MPBA" mpba]
  setOffsets := [("Mxc", 2), ("Mtab", 4), ("Mpba", 8)]

end PCICapMSIX

namespace PCICapExpress

def pxcap : RegisterClass where
  name := "Pxcap"
  fields := [⟨"VER", 2, some 4⟩, ⟨"DPT", 2, some 4⟩, ⟨"SI", 2, some 1⟩, ⟨"IMN", 2, some 5⟩,
      ⟨"RSVD_0", 2, some 2⟩]
  valid := by decide

def pxdcap : RegisterClass where
  name := "Pxdcap"
  fields := [⟨"MPS", 4, some 3⟩, ⟨"PFS", 4, some 2⟩, ⟨"ETFS", 4, some 1⟩, ⟨"L0SL", 4, some 3⟩,
      ⟨"L1L", 4, some 3⟩, ⟨"RSVD_0", 4, some 3⟩, ⟨"RER", 4, some 1⟩, ⟨"RSVD_1", 4, some 2⟩,
      ⟨"CSPLV", 4, some 8⟩, ⟨"CSPLS", 4, some 2⟩, ⟨"FLRC", 4, some 1⟩, ⟨"RSVD_2", 4, some 3⟩]
  valid := by decide

def pxdc : RegisterClass where
  name := "Pxdc"
  fields := [⟨"CERE", 2, some 1⟩, ⟨"NFRE", 2, some 1⟩, ⟨"FERE", 2, some 1⟩, ⟨"URRE", 2, some 1⟩,
      ⟨"ERO", 2, some 1⟩, ⟨"MPS", 2, some 3⟩, ⟨"ETE", 2, some 1⟩, ⟨"PFE", 2, some 1⟩,
      ⟨"APPME", 2, some 1⟩, ⟨"ENS", 2, some 1⟩, ⟨"MRRS", 2, some 3⟩, ⟨"IFLR", 2, some 1⟩]
  valid := by decide

def pxds : RegisterClass where
  name := "Pxds"
  fields := [⟨"CED", 2, some 1⟩, ⟨"NFED", 2, some 1⟩, ⟨"FED", 2, some 1⟩, ⟨"URD", 2, some 1⟩,
      ⟨"APD", 2, some 1⟩, ⟨"TP", 2, some 1⟩, ⟨"RSVD_0", 2, some 10⟩]
  valid := by decide

def pxlcap : RegisterClass where
  name := "Pxlcap"
  fields := [⟨"SLS", 4, some 4⟩, ⟨"MLW", 4, some 6⟩, ⟨"ASPMS", 4, some 2⟩, ⟨"L0SEL", 4, some 3⟩,
      ⟨"L1EL", 4, some 3⟩, ⟨"CPM", 4, some 1⟩, ⟨"SDERC", 4, some 1⟩, ⟨"DLLLA", 4, some 1⟩,
      ⟨"LBNC", 4, some 1⟩, ⟨"AOC", 4, some 1⟩, ⟨"RSVD_0", 4, some 1⟩, ⟨"PN", 4, some 8⟩]
  valid := by decide

def pxlc : RegisterClass where
  name := "Pxlc"
  fields := [⟨"ASPMC", 2, some 2⟩, ⟨"RSVD_0", 2, some 1⟩, ⟨"RCB", 2, some 1⟩,
      ⟨"RSVD_1", 2, some 2⟩, ⟨"CCC", 2, some 1⟩, ⟨"ES", 2, some 1⟩, ⟨"ECPM", 2, some 1⟩,
      ⟨"HAWD", 2, some 1⟩, ⟨"RSVD_2", 2, some 6⟩]
  valid := by decide

def pxls : RegisterClass where
  name := "Pxls"
  fields := [⟨"CLS", 2, some 4⟩, ⟨"NLW", 2, some 6⟩, ⟨"RSVD_0", 2, some 2⟩, ⟨"SCC", 2, some 1⟩,
      ⟨"RSVD_1", 2, some 3⟩]
  valid := by decide

def pxdcap2 : RegisterClass where
  name := "Pxdcap2"
  fields := [⟨"CTRS", 4, some 4⟩, ⟨"CTDS", 4, some 1⟩, ⟨"ARIFS", 4, some 1⟩, ⟨"AORS", 4, some 1⟩,
      ⟨"32AOCS", 4, some 1⟩, ⟨"64AOCS", 4, some 1⟩, ⟨"128CCS", 4, some 1⟩, ⟨"NPRPR", 4, some 1⟩,
      ⟨"LTRS", 4, some 1⟩, ⟨"TPHCS", 4, some 2⟩, ⟨"RSVD_0", 4, some 4⟩, ⟨"OBFFS", 4, some 2⟩,
      ⟨"EFFS", 4, some 1⟩, ⟨"EETPS", 4, some 1⟩, ⟨"MEETP", 4, some 2⟩, ⟨"RSVD_1", 4, some 8⟩]
  valid := by decide

def pxdc2 : RegisterClass where
  name := "Pxdc2"
  fields := [⟨"CTA", 4, some 4⟩, ⟨"CTD", 4, some 1⟩, ⟨"RSVD_0", 4, some 5⟩, ⟨"LTRME", 4, some 1⟩,
      ⟨"RSVD_1", 4, some 2⟩, ⟨"OBFFE", 4, some 2⟩, ⟨"RSVD_2", 4, some 16⟩]
  valid := by decide

def cls : CapabilityClass where
  name := "PCICapExpress"
  fields := [.int ⟨"CAP_ID", 1, none⟩, .int ⟨"NEXT_PTR", 1, none⟩, .reg "PXCAP" pxcap,
      .reg "PXDCAP" pxdcap, .reg "PXDC" pxdc, .reg "PXDS" pxds, .reg "PXLCAP" pxlcap,
      .reg "PXLC" pxlc, .reg "PXLS" pxls, .reg "PXDCAP2" pxdcap2, .reg "PXDC2" pxdc2]
  setOffsets := [("Pxcap", 2), ("Pxdcap", 4), ("Pxdc", 8), ("Pxds", 10), ("Pxlcap", 12),
      ("Pxlc", 16), ("Pxls", 18), ("Pxdcap2", 20), ("Pxdc2", 24)]

end PCICapExpress

namespace PCICapabilityGenExtended

def cls : CapabilityClass where
  name := "PCICapabilityGenExtended"
  fields := [.int ⟨"CAP_ID", 4, some 16⟩, .int ⟨"CAP_VER", 4, some 4⟩,
      .int ⟨"NEXT_PTR", 4, some 12⟩]

end PCICapabilityGenExtended

namespace PCICapExtendedAer

def aeruces : RegisterClass where
  name := "Aeruces"
  fields := [⟨"RSVD_0", 4, some 4⟩, ⟨"DLPES", 4, some 1⟩, ⟨"RSVD_1", 4, some 7⟩,
      ⟨"PTS", 4, some 1⟩, ⟨"FCPES", 4, some 1⟩, ⟨"CTS", 4, some 1⟩, ⟨"CAS", 4, some 1⟩,
      ⟨"UCS", 4, some 1⟩, ⟨"ROS", 4, some 1⟩, ⟨"MTS", 4, some 1⟩, ⟨"ECRCES", 4, some 1⟩,
      ⟨"URES", 4, some 1⟩, ⟨"ACSVS", 4, some 1⟩, ⟨"UIES", 4, some 1⟩, ⟨"MCBTS", 4, some 1⟩,
      ⟨"AOEBS", 4, some 1⟩, ⟨"TPBES", 4, some 1⟩, ⟨"RSVD_2", 4, some 6⟩]
  valid := by decide

def aerucem : RegisterClass where
  name := "Aerucem"
  fields := [⟨"RSVD_0", 4, some 4⟩, ⟨"DLPEM", 4, some 1⟩, ⟨"RSVD_1", 4, some 7⟩,
      ⟨"PTM", 4, some 1⟩, ⟨"FCPEM", 4, some 1⟩, ⟨"CTM", 4, some 1⟩, ⟨"CAM", 4, some 1⟩,
      ⟨"UCM", 4, some 1⟩, ⟨"ROM", 4, some 1⟩, ⟨"MTM", 4, some 1⟩, ⟨"ECRCEM", 4, some 1⟩,
      ⟨"UREM", 4, some 1⟩, ⟨"ACSVM", 4, some 1⟩, ⟨"UIEM", 4, some 1⟩, ⟨"MCBTM", 4, some 1⟩,
      ⟨"AOEBM", 4, some 1⟩, ⟨"TPBEM", 4, some 1⟩, ⟨"RSVD_2", 4, some 6⟩]
  valid := by decide

def aerucesev : RegisterClass where
  name := "Aerucesev"
  fields := [⟨"RSVD_0", 4, some 4⟩, ⟨"DLPESEV", 4, some 1⟩, ⟨"RSVD_1", 4, some 7⟩,
      ⟨"PTSEV", 4, some 1⟩, ⟨"FCPESEV", 4, some 1⟩, ⟨"CTSEV", 4, some 1⟩, ⟨"CASEV", 4, some 1⟩,
      ⟨"UCSEV", 4, some 1⟩, ⟨"ROSEV", 4, some 1⟩, ⟨"SEV", 4, some 1⟩, ⟨"ECRCESEV", 4, some 1⟩,
      ⟨"URESEV", 4, some 1⟩, ⟨"ACSVSEV", 4, some 1⟩, ⟨"UIESEV", 4, some 1⟩, ⟨"SEV", 4, some 1⟩,
      ⟨"AOEBSEV", 4, some 1⟩, ⟨"TPBESEV", 4, some 1⟩, ⟨"RSVD_2", 4, some 6⟩]
  valid := by decide

def aerces : RegisterClass where
  name := "Aerces"
  fields := [⟨"RES", 4, some 1⟩, ⟨"RSVD_0", 4, some 5⟩, ⟨"BTS", 4, some 1⟩, ⟨"BDS", 4, some 1⟩,
      ⟨"RRS", 4, some 1⟩, ⟨"RSVD_1", 4, some 3⟩, ⟨"RTS", 4, some 1⟩, ⟨"ANFES", 4, some 1⟩,
      ⟨"CIES", 4, some 1⟩, ⟨"HLOS", 4, some 1⟩, ⟨"RSVD_2", 4, some 16⟩]
  valid := by decide

def aercem : RegisterClass where
  name := "Aercem"
  fields := [⟨"REM", 4, some 1⟩, ⟨"RSVD_0", 4, some 5⟩, ⟨"BTM", 4, some 1⟩, ⟨"BDM", 4, some 1⟩,
      ⟨"RRM", 4, some 1⟩, ⟨"RSVD_1", 4, some 3⟩, ⟨"RTM", 4, some 1⟩, ⟨"ANFEM", 4, some 1⟩,
      ⟨"CIEM", 4, some 1⟩, ⟨"HLOM", 4, some 1⟩, ⟨"RSVD_2", 4, some 16⟩]
  valid := by decide

def aercc : RegisterClass where
  name := "Aercc"
  fields := [⟨"FEP", 4, some 5⟩, ⟨"EGC", 4, some 1⟩, ⟨"EGE", 4, some 1⟩, ⟨"ECC", 4, some 1⟩,
      ⟨"ECE", 4, some 1⟩, ⟨"MHRC", 4, some 1⟩, ⟨"MHRE", 4, some 1⟩, ⟨"TPLP", 4, some 1⟩,
      ⟨"RSVD_0", 4, some 20⟩]
  valid := by decide

def aerhl : RegisterClass where
  name := "Aerhl"
  fields := [⟨"HB3", 1, none⟩, ⟨"HB2", 1, none⟩, ⟨"HB1", 1, none⟩, ⟨"HB0", 1, none⟩,
      ⟨"HB7", 1, none⟩, ⟨"HB6", 1, none⟩, ⟨"HB5", 1, none⟩, ⟨"HB4", 1, none⟩, ⟨"HB11", 1, none⟩,
      ⟨"HB10", 1, none⟩, ⟨"HB9", 1, none⟩, ⟨"HB8", 1, none⟩, ⟨"HB15", 1, none⟩, ⟨"HB14", 1, none⟩,
      ⟨"HB13", 1, none⟩, ⟨"HB12", 1, none⟩]
  valid := by decide

def aertlp : RegisterClass where
  name := "Aertlp"
  fields := [⟨"TPL1B3", 1, none⟩, ⟨"TPL1B2", 1, none⟩, ⟨"TPL1B1", 1, none⟩, ⟨"TPL1B0", 1, none⟩,
      ⟨"TPL2B3", 1, none⟩, ⟨"TPL2B2", 1, none⟩, ⟨"TPL2B1", 1, none⟩, ⟨"TPL2B0", 1, none⟩,
      ⟨"TPL3B3", 1, none⟩, ⟨"TPL3B2", 1, none⟩, ⟨"TPL3B1", 1, none⟩, ⟨"TPL3B0", 1, none⟩,
      ⟨"TPL4B3", 1, none⟩, ⟨"TPL4B2", 1, none⟩, ⟨"TPL4B1", 1, none⟩, ⟨"TPL4B0", 1, none⟩]
  valid := by decide

def cls : CapabilityClass where
  name := "PCICapExtendedAer"
  fields := [.int ⟨"CAP_ID", 4, some 16⟩, .int ⟨"CAP_VER", 4, some 4⟩,
      .int ⟨"NEXT_PTR", 4, some 12⟩, .reg "AERUCES" aeruces, .reg "AERUCEM" aerucem,
      .reg "AERUCESEV" aerucesev, .reg "AERCES" aerces, .reg "AERCEM" aercem, .reg "AERCC" aercc,
      .reg "AERHL" aerhl, .reg "AERTLP" aertlp]

end PCICapExtendedAer

namespace PCICapExtendeDeviceSerialNumber

def cls : CapabilityClass where
  name := "PCICapExtendeDeviceSerialNumber"
  fields := [.int ⟨"CAP_ID", 4, some 16⟩, .int ⟨"CAP_VER", 4, some 4⟩,
      .int ⟨"NEXT_PTR", 4, some 12⟩, .int ⟨"SN_LOW", 4, none⟩, .int ⟨"SN_HIGH", 4, none⟩]

end PCICapExtendeDeviceSerialNumber

/-- The structure of the whole configuration space, each register as the bytes it has. -/
def nvmePCIeRegisters : RegisterClass where
  name := "NVMePCIeRegisters"
  fields := [⟨"ID", 4, none⟩, ⟨"CMD", 2, none⟩, ⟨"STS", 2, none⟩, ⟨"RID", 1, none⟩,
      ⟨"CC", 3, none⟩, ⟨"CLS", 1, none⟩, ⟨"MLT", 1, none⟩, ⟨"HTYPE", 1, none⟩, ⟨"BIST", 1, none⟩,
      ⟨"BAR0", 4, none⟩, ⟨"BAR1", 4, none⟩, ⟨"BAR2", 4, none⟩, ⟨"BAR3", 4, none⟩,
      ⟨"BAR4", 4, none⟩, ⟨"BAR5", 4, none⟩, ⟨"CCPTR", 4, none⟩, ⟨"SS", 4, none⟩,
      ⟨"EROM", 4, none⟩, ⟨"CAP", 1, none⟩, ⟨"RSVD_0", 5, none⟩, ⟨"RSVD_1", 2, none⟩,
      ⟨"INTR", 2, none⟩, ⟨"MGNT", 1, none⟩, ⟨"MLAT", 1, none⟩, ⟨"CAPS", 4032, none⟩]
  baseOffset := some 0
  valid := by decide

/-- The capabilities pointer. -/
def cap : RegisterClass where
  name := "Cap"
  fields := [⟨"CP", 1, none⟩]
  baseOffset := some 0x34
  valid := by decide

inductive CapabilityType where
  | gen
  | powerManagementInterface
  | msi
  | msix
  | express
  | genExtended
  | extendedAer
  | extendeDeviceSerialNumber
  deriving DecidableEq, Repr

namespace CapabilityType

def cls : CapabilityType → CapabilityClass
  | gen => PCICapabilityGen.cls
  | powerManagementInterface => PCICapPowerManagementInterface.cls
  | msi => PCICapMSI.cls
  | msix => PCICapMSIX.cls
  | express => PCICapExpress.cls
  | genExtended => PCICapabilityGenExtended.cls
  | extendedAer => PCICapExtendedAer.cls
  | extendeDeviceSerialNumber => PCICapExtendeDeviceSerialNumber.cls

/-- The capability as one register. -/
def flat (t : CapabilityType) : RegisterClass where
  name := t.cls.name
  fields := t.cls.fields.map CapField.decl
  valid := by cases t <;> decide

def registers (t : CapabilityType) : List (String × RegisterClass) :=
  t.cls.fields.filterMap CapField.register?

theorem ownUnits_flat (t : CapabilityType) : t.flat.OwnUnits := by cases t <;> decide

theorem ownUnits_of_mem (t : CapabilityType) {r : String × RegisterClass} (hr : r ∈ t.registers) :
    r.2.OwnUnits := by
  have hunits : ∀ r ∈ t.registers, r.2.OwnUnits := by cases t <;> decide
  exact hunits r hr

/-- A nested register, by the name of its field: where it lies, and its class. -/
def register? (t : CapabilityType) (name : String) : Option (Placed × RegisterClass) := do
  let p ← t.flat.attr name
  let cls ← t.registers.lookup name
  return (p, cls)

/-- The distance `set_offsets` gives a nested class. -/
def delta? (t : CapabilityType) (cls : RegisterClass) : Option Nat :=
  t.cls.setOffsets.lookup cls.name

/-- `set_offsets` assigns every nested class. -/
def Complete (t : CapabilityType) : Prop := ∀ r ∈ t.registers, (t.delta? r.2).isSome

instance (t : CapabilityType) : Decidable t.Complete :=
  inferInstanceAs (Decidable (∀ r ∈ t.registers, (t.delta? r.2).isSome))

/-- It forgets some of the MSI capability, and all of error reporting. -/
theorem complete_iff (t : CapabilityType) : t.Complete ↔ t ≠ msi ∧ t ≠ extendedAer := by
  cases t <;> decide

/-- The distance assigned to a nested class, if one is, is its place in the structure. -/
def Placement (t : CapabilityType) (r : String × RegisterClass) : Prop :=
  ∃ p, t.flat.attr r.1 = some p ∧ ∀ d, t.delta? r.2 = some d → d = p.offset

instance (t : CapabilityType) (r : String × RegisterClass) : Decidable (t.Placement r) :=
  match h : t.flat.attr r.1 with
  | none => isFalse (by rintro ⟨p, hp, _⟩; rw [h] at hp; exact absurd hp (by simp))
  | some p =>
      decidable_of_iff ((t.delta? r.2).all (· = p.offset)) (by
        unfold Placement
        rw [Option.all_eq_true, h]
        simp)

/-- **What `set_offsets` assigns is right**: the distance is the place in the structure. -/
theorem register?_of_mem (t : CapabilityType) {r : String × RegisterClass} (hr : r ∈ t.registers) :
    ∃ p, t.register? r.1 = some (p, r.2) ∧ ∀ d, t.delta? r.2 = some d → d = p.offset := by
  have hplace : ∀ r ∈ t.registers, t.Placement r := by cases t <;> decide
  have hnames : (t.registers.map Prod.fst).Nodup := by cases t <;> decide
  obtain ⟨p, hp, hd⟩ := hplace r hr
  refine ⟨p, ?_, hd⟩
  unfold register?
  rw [hp, Lib.lookup_of_mem hnames hr]
  rfl

end CapabilityType

end LoneNvme
