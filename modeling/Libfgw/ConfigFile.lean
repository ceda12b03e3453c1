import Libfgw.Machine.Service
import Libfgw.Pack

/-! The file that a machine keeps its configuration in, and what it finds there when it starts. -/

namespace Libfgw

open Lib

abbrev Files := List Char → Option (List ZceByte)

def withSeparator (dir : List Char) : List Char :=
  match dir.getLast? with
  | none => dir
  | some c => if c = '/' ∨ c = '\\' then dir else dir ++ ['/']

def fgwConfigFilePath (hostDir vmname vmpath : List Char) : List Char :=
  let dir := withSeparator hostDir
  let dir := if vmpath = [] then dir else withSeparator (dir ++ vmpath)
  dir ++ vmname ++ "/config.zds".toList

theorem fgwConfigFilePath_injective (hostDir vmpath : List Char) :
    Function.Injective fun vmname => fgwConfigFilePath hostDir vmname vmpath := by
  intro vmname vmname' h
  simpa [fgwConfigFilePath] using h

/-- How an access to a file goes: the space of a block that is acquired for a number of bytes,
whether the file opens, and how many of the bytes are written or read. -/
structure FileIo where
  space : Nat → Nat
  opens : Bool := true
  moves : Nat → Nat

structure FileIo.Works (io : FileIo) : Prop where
  space : ∀ n : Nat, n < 2 ^ 31 → (n : Int) ≤ intCast (io.space n)
  opens : io.opens = true
  moves : ∀ n : Nat, n < 2 ^ 31 → n ≤ io.moves n

def FgwConfig.stamped (config : FgwConfig) : FgwConfig :=
  { config with configVersion := kFgwConfigVersion }

def zfgwSaveConfig (Z : ZdsRuntime) (io : FileIo) (config : FgwConfig) (path : List Char)
    (files : Files) : Except Int Unit × Files :=
  match (FgwConfig.zds Z).pack none config.stamped with
  | .error need => (.error need, files)
  | .ok packed =>
    let need := intCast packed.length
    let space := intCast (io.space need.toNat)
    if need < 0 then (.error need, files)
    else if space < need then (.error ZfgwErrcode.memory.toInt, files)
    else
      match (FgwConfig.zds Z).pack (some space) config.stamped with
      | .error wrote => (.error wrote, files)
      | .ok bytes =>
        if ¬ io.opens then (.error ZfgwErrcode.pathfilewrite.toInt, files)
        else
          (if bytes.length ≤ io.moves bytes.length then .ok ()
            else .error ZfgwErrcode.pathfilewrite.toInt,
            Function.update files path (some (bytes.take (io.moves bytes.length))))

def readConfig (Z : ZdsRuntime) (io : FileIo) (path : List Char) (files : Files) :
    Except Int FgwConfig :=
  match files path with
  | none => .error ZfgwErrcode.pathfileread.toInt
  | some bytes =>
    let len := bytes.length
    if ¬ io.opens ∨ len = 0 then .error ZfgwErrcode.pathfileread.toInt
    else if intCast (io.space len) < intCast len then .error ZfgwErrcode.memory.toInt
    else if io.moves len < len then .error ZfgwErrcode.pathfileread.toInt
    else ((FgwConfig.zds Z).unpack {} bytes).map Prod.fst

section Files

variable {Z : ZdsRuntime} {io : FileIo} {config : FgwConfig} {path path' : List Char} {files : Files}

theorem zfgwSaveConfig_other (h : path' ≠ path) :
    (zfgwSaveConfig Z io config path files).2 path' = files path' := by
  simp only [zfgwSaveConfig]
  split
  · rfl
  split
  · rfl
  split
  · rfl
  split
  · rfl
  split
  · rfl
  · exact Function.update_of_ne h _ _

theorem zfgwSaveConfig_works (hZ : Z.Lawful) (hio : io.Works) {bytes : List ZceByte}
    (hpack : (FgwConfig.zds Z).pack none config.stamped = .ok bytes) (hlen : bytes.length < 2 ^ 31) :
    zfgwSaveConfig Z io config path files = (.ok (), Function.update files path (some bytes)) := by
  have hspace := hio.space bytes.length hlen
  have hmoves := hio.moves bytes.length hlen
  have hfits : (FgwConfig.zds Z).pack (some (intCast (io.space bytes.length))) config.stamped =
      .ok bytes := (FgwConfig.zds_lawful hZ).fits.2 ⟨hpack, hspace⟩
  simp only [zfgwSaveConfig, hpack, intCast_of_lt hlen, Int.toNat_natCast]
  rw [if_neg (by omega), if_neg (by omega)]
  simp only [hfits]
  rw [if_neg (by rw [hio.opens]; exact not_not.2 rfl), if_pos hmoves, List.take_of_length_le hmoves]

theorem readConfig_works (hZ : Z.Lawful) (hio : io.Works) {bytes : List ZceByte}
    (hpack : (FgwConfig.zds Z).pack none config = .ok bytes) (hlen : bytes.length < 2 ^ 31)
    (hfile : files path = some bytes) : readConfig Z io path files = .ok config := by
  have hspace := hio.space bytes.length hlen
  have hmoves := hio.moves bytes.length hlen
  have hread := (FgwConfig.zds_lawful hZ).reads hpack {} []
  rw [List.append_nil] at hread
  have hne : bytes.length ≠ 0 := by
    obtain ⟨head, hhead, h⟩ := bind_eq_ok.1 hpack
    obtain ⟨body, hbody, h⟩ := bind_eq_ok.1 h
    rw [← Except.ok.inj h, List.length_append]
    have hpos := List.length_pos_of_ne_nil (hZ.header_ne_nil hhead)
    omega
  have hopens : ¬ (¬ io.opens = true ∨ bytes.length = 0) := by
    rw [hio.opens]
    exact fun h => h.elim (fun hc => hc rfl) hne
  simp only [readConfig, hfile]
  rw [if_neg hopens, if_neg (by rw [intCast_of_lt hlen]; omega), if_neg (by omega), hread]
  rfl

end Files

theorem readConfig_unstamped {Z : ZdsRuntime} {path : List Char} {files : Files}
    {bytes : List ZceByte} {p : BitVec 64} {n : Nat} (hfile : files path = some bytes)
    (hhead : Z.struct.unpackHeader bytes = .ok (p, n)) (hbit : p.getLsbD 14 = false) (io : FileIo) :
    ∃ e, ZfgwMachine.zfgwLoadConfig (readConfig Z io path files) = .error e := by
  cases hread : readConfig Z io path files with
  | error e => exact ⟨e, rfl⟩
  | ok decoded =>
    have hunpack : ∃ k, (FgwConfig.zds Z).unpack {} bytes = .ok (decoded, k) := by
      simp only [readConfig, hfile] at hread
      split at hread
      · cases hread
      split at hread
      · cases hread
      split at hread
      · cases hread
      cases hresult : (FgwConfig.zds Z).unpack {} bytes with
      | error e =>
        rw [hresult] at hread
        cases hread
      | ok r =>
        rw [hresult] at hread
        exact ⟨r.2, congrArg _ (Prod.ext (Except.ok.inj hread) rfl)⟩
    obtain ⟨k, hunpack⟩ := hunpack
    have hmembers : FgwConfig.members Z = (FgwConfig.members Z).take 14 ++
        [Z.uint32.member FgwConfig.configVersion fun a t => { t with configVersion := a }] := rfl
    rw [FgwConfig.zds, hmembers] at hunpack
    obtain ⟨t, rfl⟩ := RecordFormat.unpack_without_last hhead (by exact hbit) hunpack
    exact ⟨_, rfl⟩

inductive Request
  | mlfGetStatus (req : FgwEmpty)
  | mlfStart (req : FgwStartRequest)
  | mlfStop (req : FgwEmpty)
  | mlfSetConfig (req : FgwSetConfigRequest)
  | mlfAddChannel (req : FgwAddChannelRequest)
  | mlfRemoveChannel (req : FgwRemoveChannelRequest)

namespace Request

def unpackArg {α : Type} [Inhabited α] (c : Packing ZceByte α) (dblock : List ZceByte) :
    Except Int α := (c.unpack default dblock).map Prod.fst

variable (Z : ZdsRuntime)

/-- The first half of `call_dblock`. -/
def ofDblock (method : String) (dblock : List ZceByte) : Except Int Request :=
  if method = "mlfGetStatus" then (unpackArg (FgwEmpty.zds Z) dblock).map mlfGetStatus
  else if method = "mlfStart" then (unpackArg (FgwStartRequest.zds Z) dblock).map mlfStart
  else if method = "mlfStop" then (unpackArg (FgwEmpty.zds Z) dblock).map mlfStop
  else if method = "mlfSetConfig" then
    (unpackArg (FgwSetConfigRequest.zds Z) dblock).map mlfSetConfig
  else if method = "mlfAddChannel" then
    (unpackArg (FgwAddChannelRequest.zds Z) dblock).map mlfAddChannel
  else if method = "mlfRemoveChannel" then
    (unpackArg (FgwRemoveChannelRequest.zds Z) dblock).map mlfRemoveChannel
  else .error ZfgwErrcode.invalidconfig.toInt

def method : Request → String
  | mlfGetStatus _ => "mlfGetStatus"
  | mlfStart _ => "mlfStart"
  | mlfStop _ => "mlfStop"
  | mlfSetConfig _ => "mlfSetConfig"
  | mlfAddChannel _ => "mlfAddChannel"
  | mlfRemoveChannel _ => "mlfRemoveChannel"

def dblock : Request → Except Int (List ZceByte)
  | mlfGetStatus req => (FgwEmpty.zds Z).pack none req
  | mlfStart req => (FgwStartRequest.zds Z).pack none req
  | mlfStop req => (FgwEmpty.zds Z).pack none req
  | mlfSetConfig req => (FgwSetConfigRequest.zds Z).pack none req
  | mlfAddChannel req => (FgwAddChannelRequest.zds Z).pack none req
  | mlfRemoveChannel req => (FgwRemoveChannelRequest.zds Z).pack none req

variable {Z}

theorem unpackArg_pack {α : Type} [Inhabited α] {c : Packing ZceByte α} (hc : c.Lawful) {a : α}
    {bs : List ZceByte} (h : c.pack none a = .ok bs) : unpackArg c bs = .ok a := by
  have hread := hc.reads h default []
  rw [List.append_nil] at hread
  rw [unpackArg, hread]
  rfl

theorem ofDblock_dblock (hZ : Z.Lawful) {r : Request} {bs : List ZceByte}
    (h : r.dblock Z = .ok bs) : ofDblock Z r.method bs = .ok r := by
  cases r with
  | mlfGetStatus req =>
    have hlawful : (FgwEmpty.zds Z).Lawful := Message.zds_lawful hZ .empty
    exact congrArg (Except.map mlfGetStatus) (unpackArg_pack hlawful h)
  | mlfStart req =>
    have hlawful : (FgwStartRequest.zds Z).Lawful := Message.zds_lawful hZ .startRequest
    exact congrArg (Except.map mlfStart) (unpackArg_pack hlawful h)
  | mlfStop req =>
    have hlawful : (FgwEmpty.zds Z).Lawful := Message.zds_lawful hZ .empty
    exact congrArg (Except.map mlfStop) (unpackArg_pack hlawful h)
  | mlfSetConfig req =>
    have hlawful : (FgwSetConfigRequest.zds Z).Lawful := Message.zds_lawful hZ .setConfigRequest
    exact congrArg (Except.map mlfSetConfig) (unpackArg_pack hlawful h)
  | mlfAddChannel req =>
    have hlawful : (FgwAddChannelRequest.zds Z).Lawful := Message.zds_lawful hZ .addChannelRequest
    exact congrArg (Except.map mlfAddChannel) (unpackArg_pack hlawful h)
  | mlfRemoveChannel req =>
    have hlawful : (FgwRemoveChannelRequest.zds Z).Lawful := Message.zds_lawful hZ .removeChannelRequest
    exact congrArg (Except.map mlfRemoveChannel) (unpackArg_pack hlawful h)

end Request

/-- The machines of a host by their names, each with what it finds around it, and the host's files. -/
structure VmHost (σ : Type) where
  hostDir : List Char
  files : Files
  env : List Char → Env σ
  machines : List Char → ZfgwMachine σ

namespace VmHost

open ZfgwMachine

variable {σ : Type} (Z : ZdsRuntime)

def path (s : VmHost σ) (vm : List Char) : List Char := fgwConfigFilePath s.hostDir vm []

def setMachine (vm : List Char) (m : ZfgwMachine σ) (s : VmHost σ) : VmHost σ :=
  { s with machines := Function.update s.machines vm m }

def setConfig (vm : List Char) (config : FgwConfig) (io : FileIo) (s : VmHost σ) : VmHost σ :=
  let m := (mlfSetConfig config (s.machines vm)).2
  let s := s.setMachine vm m
  if fgwConfigVersionOk config.configVersion then
    { s with files := (zfgwSaveConfig Z io m.config (s.path vm) s.files).2 }
  else s

/-- The second half of `call_dblock`.  The status is read from the machine, which it leaves alone. -/
def serve (vm : List Char) (b : Bringup) (io : FileIo) (s : VmHost σ) : Request → VmHost σ
  | .mlfGetStatus _ => s
  | .mlfStart req => s.setMachine vm (mlfStart (s.env vm) req.forceRestart b (s.machines vm)).2
  | .mlfStop _ => s.setMachine vm (mlfStop (s.machines vm)).2
  | .mlfSetConfig req => s.setConfig Z vm req.config io
  | .mlfAddChannel req => s.setMachine vm (mlfAddChannel (s.env vm) req.channel (s.machines vm)).2
  | .mlfRemoveChannel req => s.setMachine vm (mlfRemoveChannel req.channelId (s.machines vm)).2

def callDblock (vm : List Char) (method : String) (dblock : List ZceByte) (b : Bringup) (io : FileIo)
    (s : VmHost σ) : VmHost σ :=
  match Request.ofDblock Z method dblock with
  | .error _ => s
  | .ok r => s.serve Z vm b io r

def start (vm : List Char) (b : Bringup) (io : FileIo) (s : VmHost σ) : VmHost σ :=
  let file := readConfig Z io (s.path vm) s.files
  s.setMachine vm (ZfgwMachine.start (s.env vm) (some file) b (s.machines vm)).2

/-- The machine is made anew, in a process of its own or an old one, and started. -/
def boot (vm : List Char) (env : Env σ) (b : Bringup) (io : FileIo) (s : VmHost σ) : VmHost σ :=
  ({ s with env := Function.update s.env vm env }.setMachine vm ZfgwMachine.init).start Z vm b io

/-- What can happen on a host.  A machine that is booted may have been lost at any time before. -/
inductive Op (σ : Type)
  | call (vm : List Char) (method : String) (dblock : List ZceByte) (b : Bringup) (io : FileIo)
  | boot (vm : List Char) (env : Env σ) (b : Bringup) (io : FileIo)
  | start (vm : List Char) (b : Bringup) (io : FileIo)
  | stop (vm : List Char)
  | link (vm : List Char) (op : LinkedStream.Op σ)
  | transit (vm : List Char) (op : TransitService.Op)

def step (s : VmHost σ) : Op σ → VmHost σ
  | .call vm method dblock b io => s.callDblock Z vm method dblock b io
  | .boot vm env b io => s.boot Z vm env b io
  | .start vm b io => s.start Z vm b io
  | .stop vm => s.setMachine vm (s.machines vm).doTeardown
  | .link vm op => s.setMachine vm (ZfgwMachine.step (s.env vm) (s.machines vm) (.link op))
  | .transit vm op => s.setMachine vm (ZfgwMachine.step (s.env vm) (s.machines vm) (.transit op))

def run (s : VmHost σ) (ops : List (Op σ)) : VmHost σ := ops.foldl (step Z) s

def Configures (vm : List Char) : Op σ → Prop
  | .call vm' method dblock _ _ => vm' = vm ∧ ∃ req,
    Request.ofDblock Z method dblock = .ok (.mlfSetConfig req) ∧
      fgwConfigVersionOk req.config.configVersion = true
  | _ => False

variable {Z} {s : VmHost σ} {vm : List Char} {config : FgwConfig}

theorem path_ne (s : VmHost σ) {vm' : List Char} (h : vm ≠ vm') : s.path vm ≠ s.path vm' :=
  (fgwConfigFilePath_injective s.hostDir []).ne h

@[simp] theorem setMachine_files (s : VmHost σ) (vm : List Char) (m : ZfgwMachine σ) :
    (s.setMachine vm m).files = s.files := rfl

@[simp] theorem setMachine_hostDir (s : VmHost σ) (vm : List Char) (m : ZfgwMachine σ) :
    (s.setMachine vm m).hostDir = s.hostDir := rfl

theorem setConfig_hostDir (vm : List Char) (config : FgwConfig) (io : FileIo) (s : VmHost σ) :
    (s.setConfig Z vm config io).hostDir = s.hostDir := by
  unfold setConfig
  split <;> rfl

theorem setConfig_files_other {vm' : List Char} (h : vm ≠ vm') (config : FgwConfig) (io : FileIo)
    (s : VmHost σ) : (s.setConfig Z vm' config io).files (s.path vm) = s.files (s.path vm) := by
  unfold setConfig
  split
  · exact zfgwSaveConfig_other (s.path_ne h)
  · rfl

theorem serve_hostDir (vm : List Char) (b : Bringup) (io : FileIo) (s : VmHost σ) (r : Request) :
    (s.serve Z vm b io r).hostDir = s.hostDir := by
  cases r with
  | mlfSetConfig req => exact setConfig_hostDir vm req.config io s
  | _ => rfl

theorem step_hostDir (s : VmHost σ) (op : Op σ) : (step Z s op).hostDir = s.hostDir := by
  cases op with
  | call vm method dblock b io =>
    simp only [step, callDblock]
    split
    · rfl
    · exact serve_hostDir vm b io s _
  | _ => rfl

theorem run_hostDir (s : VmHost σ) (ops : List (Op σ)) : (run Z s ops).hostDir = s.hostDir := by
  induction ops generalizing s with
  | nil => rfl
  | cons op ops ih => exact (ih (step Z s op)).trans (step_hostDir s op)

theorem step_files {op : Op σ} (h : ¬ Configures Z vm op) :
    (step Z s op).files (s.path vm) = s.files (s.path vm) := by
  cases op with
  | call vm' method dblock b io =>
    simp only [step, callDblock]
    split
    · rfl
    rename_i r hr
    cases r with
    | mlfSetConfig req =>
      by_cases hvm : vm = vm'
      · have hrefused : ¬ fgwConfigVersionOk req.config.configVersion = true :=
          fun hok => h ⟨hvm.symm, req, hr, hok⟩
        simp only [serve, setConfig]
        rw [if_neg hrefused]
        rfl
      · exact setConfig_files_other hvm req.config io s
    | _ => rfl
  | _ => rfl

theorem run_files {ops : List (Op σ)} (h : ∀ op ∈ ops, ¬ Configures Z vm op) :
    (run Z s ops).files (s.path vm) = s.files (s.path vm) := by
  induction ops generalizing s with
  | nil => rfl
  | cons op ops ih =>
    obtain ⟨hop, hops⟩ := List.forall_mem_cons.1 h
    have hpath : (step Z s op).path vm = s.path vm := by rw [path, path, step_hostDir]
    have hrest := ih (s := step Z s op) hops
    rw [hpath] at hrest
    exact hrest.trans (step_files hop)

def Keeps (Z : ZdsRuntime) (s : VmHost σ) (vm : List Char) (config : FgwConfig) : Prop :=
  ∃ bytes, s.files (s.path vm) = some bytes ∧ (FgwConfig.zds Z).pack none config = .ok bytes ∧
    bytes.length < 2 ^ 31

theorem setConfig_keeps (hZ : Z.Lawful) (hversion : fgwConfigVersionOk config.configVersion = true)
    {bytes : List ZceByte} (hpack : (FgwConfig.zds Z).pack none config = .ok bytes)
    (hlen : bytes.length < 2 ^ 31) {io : FileIo} (hio : io.Works) :
    Keeps Z (s.setConfig Z vm config io) vm config := by
  have hstamped : config.stamped = config := by
    rw [FgwConfig.stamped, ← beq_iff_eq.1 hversion]
  refine ⟨bytes, ?_, hpack, hlen⟩
  have hsave : (zfgwSaveConfig Z io config (s.path vm) s.files).2 (s.path vm) = some bytes := by
    rw [zfgwSaveConfig_works hZ hio (by rw [hstamped]; exact hpack) hlen]
    exact Function.update_self _ _ _
  have hpath : (s.setConfig Z vm config io).path vm = s.path vm := by
    rw [path, path, setConfig_hostDir]
  rw [hpath]
  simp only [setConfig, mlfSetConfig, hversion, if_true]
  exact hsave

theorem Keeps.run (h : Keeps Z s vm config) {ops : List (Op σ)}
    (hops : ∀ op ∈ ops, ¬ Configures Z vm op) : Keeps Z (run Z s ops) vm config := by
  obtain ⟨bytes, hfile, hpack, hlen⟩ := h
  have hpath : (VmHost.run Z s ops).path vm = s.path vm := by rw [path, path, run_hostDir]
  exact ⟨bytes, by rw [hpath, run_files hops, hfile], hpack, hlen⟩

theorem Keeps.boot (h : Keeps Z s vm config) (hZ : Z.Lawful)
    (hversion : fgwConfigVersionOk config.configVersion = true) {io : FileIo} (hio : io.Works)
    (env : Env σ) (b : Bringup) :
    (s.boot Z vm env b io).machines vm = (doBringup env b { config := config }).2 := by
  obtain ⟨bytes, hfile, hpack, hlen⟩ := h
  have hread := readConfig_works hZ hio hpack hlen hfile
  have hload : zfgwLoadConfig (.ok config) = .ok config := by
    simp only [zfgwLoadConfig, Except.bind, hversion, if_true]
  change Function.update _ vm _ vm = _
  rw [Function.update_self]
  change (ZfgwMachine.start (Function.update s.env vm env vm) (some (readConfig Z io (s.path vm) s.files))
    b (Function.update s.machines vm _ vm)).2 = _
  rw [Function.update_self, Function.update_self, hread]
  simp only [ZfgwMachine.start, Option.map_some, hload]
  rfl

/-- A machine that has accepted a configuration comes up with it again after whatever else happens
on its host, as long as it accepts no other: also when it has been lost in between. -/
theorem boots_as_configured (hZ : Z.Lawful) (s : VmHost σ)
    (hversion : fgwConfigVersionOk config.configVersion = true) {dblock : List ZceByte}
    (hpack : (Request.mlfSetConfig ⟨config⟩).dblock Z = .ok dblock) (hlen : dblock.length < 2 ^ 31)
    (b : Bringup) {io : FileIo} (hio : io.Works) {ops : List (Op σ)}
    (hops : ∀ op ∈ ops, ¬ Configures Z vm op) (env : Env σ) (b' : Bringup) {io' : FileIo}
    (hio' : io'.Works) :
    (run Z s (.call vm "mlfSetConfig" dblock b io :: (ops ++ [.boot vm env b' io']))).machines vm =
      (doBringup env b' { config := config }).2 := by
  have hfull : Z.isEmptyStruct config default = false := by
    by_contra hempty
    have hdefault := hZ.isEmptyStruct (Bool.not_eq_false _ ▸ hempty)
    rw [hdefault] at hversion
    exact absurd hversion (by decide)
  obtain ⟨bytes, hbytes, hle⟩ := RecordFormat.pack_mem (F := Z.struct) List.mem_cons_self
    (Nat.le_of_ble_eq_true rfl) hfull hpack
  have hserve : s.callDblock Z vm "mlfSetConfig" dblock b io = s.setConfig Z vm config io := by
    have hrequest := Request.ofDblock_dblock hZ hpack
    change Request.ofDblock Z "mlfSetConfig" dblock = _ at hrequest
    simp only [callDblock, hrequest, serve]
  have hkeeps : Keeps Z (s.setConfig Z vm config io) vm config :=
    setConfig_keeps hZ hversion hbytes (Nat.lt_of_le_of_lt hle hlen) hio
  rw [VmHost.run, List.foldl_cons, List.foldl_append]
  change (VmHost.boot Z vm env b' io' (VmHost.run Z (s.callDblock Z vm _ dblock b io) ops)).machines vm = _
  rw [hserve]
  exact (hkeeps.run hops).boot hZ hversion hio' env b'

theorem reusing_oneProcess (_ : Nat) :
    (Host.reusing fun _ => 0).randomDevice = (Host.reusing fun _ => 0).randomDevice := rfl

def sampleEnv : Env Unit where
  host _ := Host.reusing fun _ => 0
  setting _ := Setting.quiet (FgwConfig.streamConfig {}) .empty (ZdsCodec.known [] [])
  owner _ := ()
  one_process := reusing_oneProcess

def sampleHost : VmHost Unit where
  hostDir := "vms".toList
  files _ := none
  env _ := sampleEnv
  machines _ := ZfgwMachine.init

def sampleConfig : FgwConfig :=
  { ingressId := 7#32
    channels := [{ channelId := 1#32, remote := { port := 9000#16 } }]
    configVersion := kFgwConfigVersion }

def sampleIo : FileIo where
  space n := n
  moves n := n

theorem sampleIo_works : sampleIo.Works where
  space n hn := by rw [sampleIo, intCast_of_lt hn]
  opens := rfl
  moves n _ := Nat.le_refl n

def sampleDblock : List ZceByte :=
  [8, 1, 0, 0, 0, 0, 0, 0, 0, 8, 230, 95, 0, 0, 0, 0, 0, 0, 4, 7, 0, 0, 0, 2, 56, 4, 4, 1, 0, 0,
    0, 8, 13, 0, 0, 0, 0, 0, 0, 0, 4, 1, 0, 0, 0, 8, 2, 0, 0, 0, 0, 0, 0, 0, 2, 40, 35, 4, 100,
    0, 0, 0, 2, 176, 4, 2, 0, 4, 2, 5, 0, 2, 15, 0, 2, 60, 0, 1, 2, 1, 1, 4, 3, 0, 192,
    246].map (BitVec.ofNat 8)

theorem boots_as_configured_sample :
    (run .sample sampleHost
      (.call ['a'] "mlfSetConfig" sampleDblock {} sampleIo :: ([.stop ['a'],
        .boot ['a'] sampleEnv { reactor := false } sampleIo,
        .call ['b'] "mlfSetConfig" sampleDblock {} sampleIo, .call ['a'] "mlfGone" [] {} sampleIo] ++
          [.boot ['a'] sampleEnv {} sampleIo]))).machines ['a'] =
      (doBringup sampleEnv {} { config := sampleConfig }).2 := by
  refine boots_as_configured ZdsRuntime.sample_lawful sampleHost (by decide) (by decide +kernel) (by decide) {}
    sampleIo_works ?_ sampleEnv {} sampleIo_works
  simp [Configures, Request.ofDblock]

/-- A machine whose file has no version in it does not start from it, and all stays as it was. -/
theorem start_without_version (s : VmHost σ) {bytes : List ZceByte} {p : BitVec 64} {n : Nat}
    (hfile : s.files (s.path vm) = some bytes) (hhead : Z.struct.unpackHeader bytes = .ok (p, n))
    (hbit : p.getLsbD 14 = false) (b : Bringup) (io : FileIo) : s.start Z vm b io = s := by
  obtain ⟨e, hload⟩ := readConfig_unstamped hfile hhead hbit io
  have hstart : ZfgwMachine.start (s.env vm) (some (readConfig Z io (s.path vm) s.files)) b
      (s.machines vm) = (0, s.machines vm) := by
    simp only [ZfgwMachine.start, Option.map_some, hload]
  simp only [VmHost.start, hstart, setMachine, Function.update_eq_self]

def unstampedHost : VmHost Unit :=
  { sampleHost with
    files := fun _ => some ([8, 1, 0, 0, 0, 0, 0, 0, 0, 1, 2].map (BitVec.ofNat 8)) }

theorem start_without_version_sample :
    unstampedHost.start .sample ['a'] {} sampleIo = unstampedHost :=
  start_without_version (p := 1#64) (n := 9) _ rfl (by decide +kernel) (by decide) {} sampleIo

end VmHost

end Libfgw
