import NativeHardwareAccess.Schemes.Memory
import NativeHardwareAccess.Server.MessageBuilder

/-! `TPMWatcher` (tpmwatcher.cpp): the cached device ID and the time of its last update.

    `update` reads the endorsement key's name from the TPM, folds 32 of its bytes into a device ID and
    stores it together with the clock reading, both under one lock. Everything it acquires on the way
    is given back on every path.

        TctiLdr ─▶ Esys ─▶ CreatePrimary ─▶ ReadPublic ─▶ name long enough? ─▶ store, release, true
           │         │           │               │                │
           ▼         ▼           ▼               ▼                ▼
         false    release,    release,        release,         release,
                   false       false           false            false

    A failing library call is taken to leave its output pointers null, as the library documents. -/

namespace NHA.TPMWatcher
open Scheme NHA.MessageBuilder

/-- The cached values, both guarded by `deviceIDLastUpdatedMutex`. -/
structure Cache where
  deviceID : DeviceID
  lastUpdated : UInt64
  deriving DecidableEq

/-- What the library calls of one `update` return: their codes, and the name that is read. -/
structure Tpm where
  tctiInitialize : UInt32
  esysInitialize : UInt32
  createPrimary : UInt32
  readPublic : UInt32
  name : Memory
  nameSize : UInt16

def tss2RcSuccess : UInt32 := 0
def tss2EsysRcGeneralFailure : UInt32 := 0x00070001

/-- What `update` acquires from the library: contexts, the key handle and allocations. -/
inductive Resource where
  | tctiContext | esysContext | ekHandle
  | outPublic | creationData | creationHash | creationTicket
  | ekName | ekQualifiedName
  deriving DecidableEq

/-- What an `update` does besides writing the cache. -/
inductive Event where
  | acquire (r : Resource)
  | release (r : Resource)
  | logTpmError (rc : UInt32) (location : String)
  deriving DecidableEq

/-- The cache, the resources whose handle or pointer is set, and the events so far. -/
structure Call where
  cache : Cache
  held : List Resource
  events : List Event

/-- A library call fills in these handles and pointers. -/
def Call.acquire (rs : List Resource) (c : Call) : Call :=
  { c with held := c.held ++ rs, events := c.events ++ rs.map .acquire }

def Call.log (rc : UInt32) (location : String) (c : Call) : Call :=
  { c with events := c.events ++ [.logTpmError rc location] }

/-- Give one resource back and forget its handle. -/
def Call.release (r : Resource) (c : Call) : Call :=
  { c with held := c.held.erase r, events := c.events ++ [.release r] }

/-- `FREE_TPM_RESOURCE`: free an allocation unless its pointer is null. -/
def Call.free (r : Resource) (c : Call) : Call := if r ∈ c.held then c.release r else c

/-- The releases after `Esys_ReadPublic`, the same on every path. -/
def Call.cleanUp (c : Call) : Call :=
  (((((((((c.free .ekName).free .ekQualifiedName).release .ekHandle).free .outPublic).free
    .creationData).free .creationHash).free .creationTicket).release .esysContext).release
    .tctiContext)

/-- Skip the bytes 00 0B that may precede the digest in the name. -/
def dataOffset (tpm : Tpm) : ℕ :=
  if 2 ≤ tpm.nameSize.toNat ∧ tpm.name 0 = 0x00 ∧ tpm.name 1 = 0x0B then 2 else 0

/-- XOR of the first sixteen bytes with the second sixteen. -/
def foldName (sourceData : Memory) : DeviceID :=
  ⟨(List.range 16).map (fun i => sourceData i ^^^ sourceData (i + 16)), by simp⟩

/-- The critical section: both values are written under one lock. -/
def Call.store (tpm : Tpm) (now : UInt64) (c : Call) : Call :=
  { c with cache := ⟨foldName (fun i => tpm.name (dataOffset tpm + i)), now⟩ }

/-- `TPMWatcher::update`; `now` is the clock reading inside the critical section. -/
def update (tpm : Tpm) (now : UInt64) (cache : Cache) : Bool × Call :=
  let c : Call := ⟨cache, [], []⟩
  if tpm.tctiInitialize ≠ tss2RcSuccess then
    (false, c.log tpm.tctiInitialize "Tss2_TctiLdr_Initialize(device:/dev/tpmrm0)")
  else
    let c := c.acquire [.tctiContext]
    if tpm.esysInitialize ≠ tss2RcSuccess then
      (false, (c.log tpm.esysInitialize "Esys_Initialize").release .tctiContext)
    else
      let c := c.acquire [.esysContext]
      if tpm.createPrimary ≠ tss2RcSuccess then
        (false, ((c.log tpm.createPrimary "Esys_CreatePrimary").release .esysContext).release
          .tctiContext)
      else
        let c := c.acquire [.ekHandle, .outPublic, .creationData, .creationHash, .creationTicket]
        if tpm.readPublic ≠ tss2RcSuccess then
          (false, (c.log tpm.readPublic "Esys_ReadPublic").cleanUp)
        else
          let c := c.acquire [.ekName, .ekQualifiedName]
          -- a `size_t` subtraction
          if (tpm.nameSize.toNat + 2 ^ 64 - dataOffset tpm) % 2 ^ 64 < 32 then
            (false, (c.log tss2EsysRcGeneralFailure
              "Insufficient data in TPM2B_NAME for UUID generation").cleanUp)
          else (true, (c.store tpm now).cleanUp)

/-- The cache before the first update. -/
def Cache.init : Cache := ⟨List.Vector.replicate 16 0, 0⟩

/-! ### What an update does to the cache -/

@[simp] theorem cache_release (r : Resource) (c : Call) : (c.release r).cache = c.cache := rfl

@[simp] theorem cache_free (r : Resource) (c : Call) : (c.free r).cache = c.cache := by
  rw [Call.free]
  split <;> rfl

@[simp] theorem cache_cleanUp (c : Call) : c.cleanUp.cache = c.cache := by simp [Call.cleanUp]

/-- An update either fails and leaves the cache alone, or replaces both values at once. -/
theorem update_cases (tpm : Tpm) (now : UInt64) (cache : Cache) :
    ((update tpm now cache).1 = false ∧ (update tpm now cache).2.cache = cache) ∨
    ((update tpm now cache).1 = true ∧ (update tpm now cache).2.cache =
      ⟨foldName (fun i => tpm.name (dataOffset tpm + i)), now⟩) := by
  rw [update]
  dsimp only
  split_ifs with h1 h2 h3 h4 h5
  · exact Or.inl ⟨rfl, rfl⟩
  · exact Or.inl ⟨rfl, rfl⟩
  · exact Or.inl ⟨rfl, rfl⟩
  · exact Or.inl ⟨rfl, by rw [cache_cleanUp]; rfl⟩
  · exact Or.inl ⟨rfl, by rw [cache_cleanUp]; rfl⟩
  · exact Or.inr ⟨rfl, by rw [cache_cleanUp]; rfl⟩

end NHA.TPMWatcher
