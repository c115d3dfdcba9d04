/-
# The values of `__vertx.subs` as bytes

A value of the multimap is written by the node that registers a consumer and read by every
other node, which need not run the same program: `ClusterNodeInfo` of
`src/vertx/hazelcast_cluster.h` and `java/HazelcastClusterNodeInfo.java` share a factory and a
class number, and so write and read for each other.

They agree (`values_shared`): whichever of them wrote the values, each of them reads what was
written, in order, and nothing behind it.  There is one thing that Java can write and this
program not read, a string that is `null`.  `readUTF` gives it back as a null pointer, which
`readData` dereferences.

How Hazelcast writes an `int` and a string is a parameter (`ObjectData`).  `ServerID` has
functions of its own, which `ClusterNodeInfo` does without; what one of them writes the other
reads too (`ServerID.reads_writeData`).
-/
import VertxCpp.Hazelcast
import VertxCpp.Library.LengthPrefixed
import VertxCpp.Library.Reader

namespace VertxCpp

open Reader

/-- Why a value is not read: the input is over too soon, or a null pointer is dereferenced. -/
inductive ReadFault where
  | endOfInput
  | nullPointer
  deriving DecidableEq, Repr

/-- `ObjectDataOutput` and `ObjectDataInput`: what is written comes back.  A string may be absent,
`null` in Java and a null pointer here; `text` are the strings that can be written. -/
structure ObjectData where
  text : Bytes → Prop
  writeInt : Int32 → Bytes
  readInt : Reader ReadFault Int32
  writeUTF : Option Bytes → Bytes
  readUTF : Reader ReadFault (Option Bytes)
  reads_int : ∀ i, Reads readInt (writeInt i) (.ok i)
  reads_utf : ∀ s, (∀ t, s = some t → text t) → Reads readUTF (writeUTF s) (.ok s)

/-- `*p`. -/
def deref {α : Type} : Option α → Reader ReadFault α
  | some a => pure a
  | none => throw .nullPointer

/-- `ServerID::writeData`. -/
def ServerID.writeData (d : ObjectData) (s : ServerID) : Bytes :=
  d.writeInt s.port ++ d.writeUTF (some s.host)

/-- `ServerID::readData`. -/
def ServerID.readData (d : ObjectData) : Reader ReadFault ServerID := do
  let port ← d.readInt
  let host ← deref (← d.readUTF)
  return ⟨port, host⟩

namespace ClusterNodeInfo

def getFactoryId : Int32 := 1001

def getClassId : Int32 := 1001

/-- `ClusterNodeInfo::writeData`. -/
def writeData (d : ObjectData) (v : ClusterNodeInfo) : Bytes :=
  d.writeUTF (some v.nodeId) ++ d.writeInt v.serverId.port ++ d.writeUTF (some v.serverId.host)

/-- `ClusterNodeInfo::readData`. -/
def readData (d : ObjectData) : Reader ReadFault ClusterNodeInfo := do
  let nodeId ← deref (← d.readUTF)
  let port ← d.readInt
  let host ← deref (← d.readUTF)
  return ⟨nodeId, ⟨port, host⟩⟩

end ClusterNodeInfo

/-- `HazelcastClusterNodeInfo` in Java: the strings may be `null`. -/
structure HazelcastClusterNodeInfo where
  nodeId : Option Bytes
  port : Int32
  host : Option Bytes
  deriving DecidableEq, Repr

namespace HazelcastClusterNodeInfo

def getFactoryId : Int32 := 1001

def getId : Int32 := 1001

/-- `writeData(dataOutput)`. -/
def writeData (d : ObjectData) (v : HazelcastClusterNodeInfo) : Bytes :=
  d.writeUTF v.nodeId ++ d.writeInt v.port ++ d.writeUTF v.host

/-- `readData(dataInput)`. -/
def readData (d : ObjectData) : Reader ReadFault HazelcastClusterNodeInfo := do
  let nodeId ← d.readUTF
  let port ← d.readInt
  let host ← d.readUTF
  return ⟨nodeId, port, host⟩

end HazelcastClusterNodeInfo

/-! ### What was written -/

/-- A value of the multimap, under the program that wrote it. -/
inductive Written where
  | cpp (value : ClusterNodeInfo)
  | java (value : HazelcastClusterNodeInfo)

namespace Written

def bytes (d : ObjectData) : Written → Bytes
  | cpp v => v.writeData d
  | java v => v.writeData d

/-- The value as Java has it. -/
def toJava : Written → HazelcastClusterNodeInfo
  | cpp v => ⟨some v.nodeId, v.serverId.port, some v.serverId.host⟩
  | java v => v

/-- The value as it is had here, if it can be. -/
def toCpp (w : Written) : Except ReadFault ClusterNodeInfo :=
  match w.toJava with
  | ⟨some nodeId, port, some host⟩ => .ok ⟨nodeId, ⟨port, host⟩⟩
  | _ => .error .nullPointer

/-- Its strings can be written. -/
def Texts (d : ObjectData) (w : Written) : Prop :=
  (∀ t, w.toJava.nodeId = some t → d.text t) ∧ ∀ t, w.toJava.host = some t → d.text t

end Written

section Values

variable (d : ObjectData)

/-- Both write the same. -/
theorem Written.bytes_eq (w : Written) : w.bytes d = w.toJava.writeData d := by
  cases w <;> rfl

/-- A string that is there. -/
theorem reads_deref_some {t : Bytes} (ht : d.text t) :
    Reads (d.readUTF >>= deref) (d.writeUTF (some t)) (.ok t) := by
  have h := (d.reads_utf (some t) fun s hs => by cases hs; exact ht).bind (f := deref)
    (Reads.pure t)
  rwa [List.append_nil] at h

/-- One that is not. -/
theorem reads_deref_none :
    Reads (d.readUTF >>= deref) (d.writeUTF none) (.error .nullPointer) := by
  have h := (d.reads_utf none fun s hs => by cases hs).bind (f := deref)
    (Reads.throw ReadFault.nullPointer)
  rwa [List.append_nil] at h

/-- A `ServerID` comes back. -/
theorem ServerID.reads_writeData (s : ServerID) (hs : d.text s.host) :
    Reads (ServerID.readData d) (s.writeData d) (.ok s) := by
  have hread : ServerID.readData d
      = d.readInt >>= fun port => (d.readUTF >>= deref) >>= fun host => pure ⟨port, host⟩ := by
    simp only [ServerID.readData, bind_assoc]
  rw [hread]
  exact (d.reads_int s.port).bind ((reads_deref_some d hs).map (ServerID.mk s.port))

/-- **Here**, a value is read unless one of its strings is `null`. -/
theorem ClusterNodeInfo.reads (w : Written) (hw : w.Texts d) :
    Reads (ClusterNodeInfo.readData d) (w.bytes d) w.toCpp := by
  have hread : ClusterNodeInfo.readData d
      = (d.readUTF >>= deref) >>= fun nodeId => d.readInt >>= fun port =>
          (d.readUTF >>= deref) >>= fun host => pure ⟨nodeId, ⟨port, host⟩⟩ := by
    simp only [ClusterNodeInfo.readData, bind_assoc]
  rw [w.bytes_eq, Written.toCpp, HazelcastClusterNodeInfo.writeData, hread, List.append_assoc]
  rw [Written.Texts] at hw
  generalize w.toJava = v at hw ⊢
  obtain ⟨nodeId, port, host⟩ := v
  obtain ⟨hnodeId, hhost⟩ := hw
  cases nodeId with
  | none => exact (reads_deref_none d).bind_error _ _
  | some nodeId =>
    refine (reads_deref_some d (hnodeId nodeId rfl)).bind ((d.reads_int port).bind ?_)
    cases host with
    | none => exact (reads_deref_none d).map fun host => (⟨nodeId, ⟨port, host⟩⟩ : ClusterNodeInfo)
    | some host =>
      exact (reads_deref_some d (hhost host rfl)).map
        fun host => (⟨nodeId, ⟨port, host⟩⟩ : ClusterNodeInfo)

/-- **In Java**, every value is. -/
theorem HazelcastClusterNodeInfo.reads (w : Written) (hw : w.Texts d) :
    Reads (HazelcastClusterNodeInfo.readData d) (w.bytes d) (.ok w.toJava) := by
  obtain ⟨hnodeId, hhost⟩ := hw
  rw [w.bytes_eq, HazelcastClusterNodeInfo.writeData, List.append_assoc]
  exact (d.reads_utf _ hnodeId).bind <| (d.reads_int _).bind <|
    (d.reads_utf _ hhost).map (HazelcastClusterNodeInfo.mk w.toJava.nodeId w.toJava.port)

/-- **One multimap for two programs.**  Values that any of them wrote, one after the other, are
read in order by each: in Java as they are, here up to the first with a string that is `null`. -/
theorem values_shared {ws : List Written} (hws : ∀ w ∈ ws, w.Texts d) (rest : Bytes) :
    ClusterNodeInfo.getFactoryId = HazelcastClusterNodeInfo.getFactoryId ∧
      ClusterNodeInfo.getClassId = HazelcastClusterNodeInfo.getId ∧
      (many (HazelcastClusterNodeInfo.readData d) ws.length).run
          (ws.flatMap (Written.bytes d) ++ rest) = .ok (ws.map Written.toJava, rest) ∧
      (many (ClusterNodeInfo.readData d) ws.length).run (ws.flatMap (Written.bytes d) ++ rest)
        = (ws.mapM Written.toCpp).map fun values => (values, rest) := by
  refine ⟨rfl, rfl, ?_, ?_⟩
  · have h := Reads.many fun w hw => HazelcastClusterNodeInfo.reads d w (hws w hw)
    rw [h rest]
    exact congrArg (Except.map fun values => (values, rest)) List.mapM_pure
  · exact Reads.many (fun w hw => ClusterNodeInfo.reads d w (hws w hw)) rest

end Values

/-- An `int` as four bytes, the most significant first. -/
def readBigEndian : Reader ReadFault Int32 := fun input =>
  match input with
  | a :: b :: c :: d :: rest => .ok ((BigEndian.join a b c d).toInt32, rest)
  | _ => .error .endOfInput

/-- So many bytes, or no string where the number is negative. -/
def readChars (len : Int32) : Reader ReadFault (Option Bytes) := fun input =>
  if len.toInt < 0 then .ok (none, input)
  else if len.toInt.toNat ≤ input.length then
    .ok (some (input.take len.toInt.toNat), input.drop len.toInt.toNat)
  else .error .endOfInput

theorem reads_bigEndian (i : Int32) :
    Reads readBigEndian (BigEndian.bytes i.toUInt32) (.ok i) := by
  intro rest
  show Except.ok ((BigEndian.join _ _ _ _).toInt32, rest) = _
  rw [BigEndian.join_bytes]
  rfl

theorem reads_chars_none : Reads (readChars (-1)) [] (.ok none) := by
  intro rest
  rfl

theorem reads_chars_some {t : Bytes} (ht : t.length < 2 ^ 31) :
    Reads (readChars (Int32.ofNat t.length)) t (.ok (some t)) := by
  intro rest
  have hlen : (Int32.ofNat t.length).toInt = t.length := Int32.toInt_ofNat_of_lt ht
  show readChars (Int32.ofNat t.length) (t ++ rest) = .ok (some t, rest)
  rw [readChars, hlen, if_neg (by omega), Int.toNat_natCast, if_pos (by simp), List.take_left,
    List.drop_left]

/-- Words most significant byte first, strings behind their length. -/
def bigEndianData : ObjectData where
  text t := t.length < 2 ^ 31
  writeInt i := BigEndian.bytes i.toUInt32
  readInt := readBigEndian
  writeUTF
    | some t => BigEndian.bytes (Int32.ofNat t.length).toUInt32 ++ t
    | none => BigEndian.bytes (-1 : Int32).toUInt32
  readUTF := readBigEndian >>= readChars
  reads_int := reads_bigEndian
  reads_utf
    | none, _ => by
      have h := (reads_bigEndian (-1)).bind reads_chars_none
      rwa [List.append_nil] at h
    | some t, ht => (reads_bigEndian _).bind (reads_chars_some (ht t rfl))

/-- A value of each program, the second without a host. -/
def twoValues : List Written :=
  [.cpp ⟨bytes "n1", ⟨15701, bytes "a"⟩⟩, .java ⟨some (bytes "n2"), 15701, none⟩]

theorem values_shared_two :
    (many (HazelcastClusterNodeInfo.readData bigEndianData) 2).run
        (twoValues.flatMap (Written.bytes bigEndianData) ++ [])
      = .ok (twoValues.map Written.toJava, []) ∧
      (many (ClusterNodeInfo.readData bigEndianData) 2).run
        (twoValues.flatMap (Written.bytes bigEndianData) ++ []) = .error .nullPointer := by
  have htexts : ∀ w ∈ twoValues, w.Texts bigEndianData := by
    simp [twoValues, Written.Texts, Written.toJava, bigEndianData, bytes]
  obtain ⟨-, -, hjava, hcpp⟩ := values_shared bigEndianData htexts []
  exact ⟨hjava, hcpp⟩

end VertxCpp
