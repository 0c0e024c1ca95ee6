import LoneNvme.Structures

/-!
# Command fields

A command class names its fields over the 64 bytes of a `Generic`, one namespace for
each class that a modelled function casts a command to or builds, with the opcode it
sets by default.

The definitions read these fields off the record of an entry. That a class finds the same in the
bytes is checked against the layouts of the classes in `WireFormat`.
-/

namespace LoneNvme

namespace Identify

def OPC : BitVec 8 := 0x06
def CNS (c : Generic) : BitVec 8 := c.DW10.extractLsb' 0 8

end Identify

namespace CreateIOCompletionQueue

def OPC : BitVec 8 := 0x05
def QID (c : Generic) : BitVec 16 := c.DW10.extractLsb' 0 16
def QSIZE (c : Generic) : BitVec 16 := c.DW10.extractLsb' 16 16
def PC (c : Generic) : BitVec 1 := c.DW11.extractLsb' 0 1
def IEN (c : Generic) : BitVec 1 := c.DW11.extractLsb' 1 1
def IV (c : Generic) : BitVec 16 := c.DW11.extractLsb' 16 16

end CreateIOCompletionQueue

namespace CreateIOSubmissionQueue

def OPC : BitVec 8 := 0x01
def QID (c : Generic) : BitVec 16 := c.DW10.extractLsb' 0 16
def QSIZE (c : Generic) : BitVec 16 := c.DW10.extractLsb' 16 16
def CQID (c : Generic) : BitVec 16 := c.DW11.extractLsb' 16 16

end CreateIOSubmissionQueue

namespace DeleteIOCompletionQueue

def OPC : BitVec 8 := 0x04
def QID (c : Generic) : BitVec 16 := c.DW10.extractLsb' 0 16

end DeleteIOCompletionQueue

namespace DeleteIOSubmissionQueue

def OPC : BitVec 8 := 0x00
def QID (c : Generic) : BitVec 16 := c.DW10.extractLsb' 0 16

end DeleteIOSubmissionQueue

namespace GetLogPage

def OPC : BitVec 8 := 0x02
def LID (c : Generic) : BitVec 8 := c.DW10.extractLsb' 0 8
def OT (c : Generic) : BitVec 1 := c.DW14.extractLsb' 23 1

end GetLogPage

namespace FormatNVM

def OPC : BitVec 8 := 0x80

end FormatNVM

namespace GetFeature

def OPC : BitVec 8 := 0x0A
def FID (c : Generic) : BitVec 8 := c.DW10.extractLsb' 0 8

end GetFeature

namespace SetFeature

def OPC : BitVec 8 := 0x09
def FID (c : Generic) : BitVec 8 := c.DW10.extractLsb' 0 8
def SV (c : Generic) : BitVec 1 := c.DW10.extractLsb' 31 1

end SetFeature

namespace FeaturePowerManagement

def fid : BitVec 8 := 0x02
/-- The field of a set command. -/
def PS (c : Generic) : BitVec 4 := c.DW11.extractLsb' 0 4

end FeaturePowerManagement

namespace Write

def OPC : BitVec 8 := 0x01
def SLBA (c : Generic) : BitVec 64 := c.DW11 ++ c.DW10
def NLB (c : Generic) : BitVec 16 := c.DW12.extractLsb' 0 16

end Write

namespace Read

def OPC : BitVec 8 := 0x02
def SLBA (c : Generic) : BitVec 64 := c.DW11 ++ c.DW10
def NLB (c : Generic) : BitVec 16 := c.DW12.extractLsb' 0 16

end Read

namespace Flush

def OPC : BitVec 8 := 0x00

end Flush

/-! ## The status codes the simulator answers with -/

namespace StatusCodes

def successfulCompletion : Nat := 0x00
def invalidFieldInCommand : Nat := 0x02
def invalidLogPage : Nat := 0x09
def invalidNamespaceOrFormat : Nat := 0x0B
def lbaOutOfRange : Nat := 0x80

end StatusCodes

end LoneNvme
