import Taproot.Config
import Taproot.Library.Precedence

/-!
# Taproot.Startup

Where the two programs get their **configuration** from, the `main` of the server and
the `main` of the command line.

The sources are the defaults, the lines of the file, and for the command line its
arguments. Each field is the last candidate that passes the check of that field, where
of the lines of a field the file gives the last one only (`cliConfig_fields`). A host
that does not pass never gets through, so neither `Client::Client` nor `Server::Server`
is ever given an address that `make_address` refuses.
-/

namespace Taproot

open Posix Journal

/-- The file that both programs read. -/
def configFilename : Bytes := ascii "config.cfg"

/-- The start of the `main` of the server, up to where the server is constructed. -/
def serverConfig (lib : Libraries) (fs : Files) : Files × Config × Bytes :=
  let fs := spawnConfig fs configFilename
  (fs, parseConfig lib fs configFilename)

/-- A check, if there is something to check, and what is printed if there is not. -/
def checked (check : Config → Bytes → Config × Bool × Bytes) (cfg : Config) (absent : Bytes) :
    Option Bytes → Config × Bytes
  | some value => ((check cfg value).1, (check cfg value).2.2)
  | none => (cfg, absent)

/-- The start of the `main` of the command line, up to where the client is constructed. -/
def cliConfig (lib : Libraries) (fs : Files) (argv : List Bytes) : Config × Bytes :=
  let (config, err) := parseConfig lib fs configFilename
  let (config, hostErr) := checked (validateHost lib) config [] argv[1]?
  let (config, portErr) := checked (validatePort lib) config [] argv[2]?
  ({ config with keyspace := argv[3]?.getD config.keyspace }, err ++ hostErr ++ portErr)

/-! ### What the checks accept -/

/-- The host that a string is taken for. -/
def acceptedHost (lib : Libraries) (host : Bytes) : Option Bytes :=
  if host ≠ [] ∧ isAllSpace host = false ∧ lib.make_address host = none then some host else none

/-- The port that a string is taken for. -/
def acceptedPort (str : Bytes) : Option UInt16 :=
  match stoi str with
  | .error _ => none
  | .ok portNumber => if IsPort portNumber then some (UInt16.ofInt portNumber) else none

variable {γ : Type*} (lib : Libraries) (cfg : Config) {fs : Files} {filename : Bytes}

/-- A check enters what it accepts, and prints something exactly if it accepts nothing. -/
theorem validateHost_eq (host : Bytes) :
    (validateHost lib cfg host).1 = { cfg with host := (acceptedHost lib host).getD cfg.host } ∧
      ((validateHost lib cfg host).2.2 = [] ↔ (acceptedHost lib host).isSome = true) := by
  by_cases hblank : host ≠ [] ∧ isAllSpace host = false
  · cases haddress : lib.make_address host with
    | none =>
        have haccepted : acceptedHost lib host = some host :=
          if_pos ⟨hblank.1, hblank.2, haddress⟩
        rw [validateHost, if_pos hblank, haddress, haccepted]
        exact ⟨rfl, by simp⟩
    | some message =>
        have haccepted : acceptedHost lib host = none :=
          if_neg fun h => absurd (haddress.symm.trans h.2.2) (by simp)
        rw [validateHost, if_pos hblank, haddress, haccepted]
        exact ⟨rfl, by simp [ascii]⟩
  · have haccepted : acceptedHost lib host = none := if_neg fun h => hblank ⟨h.1, h.2.1⟩
    rw [validateHost, if_neg hblank, haccepted]
    exact ⟨rfl, by simp [ascii]⟩

theorem validatePort_eq (port : Bytes) :
    (validatePort lib cfg port).1 = { cfg with port := (acceptedPort port).getD cfg.port } ∧
      ((validatePort lib cfg port).2.2 = [] ↔ (acceptedPort port).isSome = true) := by
  rw [acceptedPort, validatePort]
  cases stoi port with
  | error e => exact ⟨rfl, by simp [ascii]⟩
  | ok portNumber =>
      dsimp only
      by_cases hport : IsPort portNumber
      · rw [if_pos hport, if_neg (by rw [IsPort] at hport; omega)]
        exact ⟨rfl, by simp⟩
      · rw [if_neg hport, if_pos (by rw [IsPort] at hport; omega)]
        exact ⟨rfl, by simp [ascii]⟩

theorem make_address_of_acceptedHost {host host' : Bytes}
    (h : acceptedHost lib host = some host') : lib.make_address host' = none := by
  rw [acceptedHost] at h
  split at h
  · next haccepted =>
      obtain rfl := Option.some.inj h
      exact haccepted.2.2
  · exact absurd h (by simp)

/-- There is a candidate for the host, and it passes. -/
def Passes (accept : Bytes → Option γ) (candidate : Option Bytes) : Prop :=
  ∃ value ∈ candidate, (accept value).isSome = true

/-- Where nothing is printed of a candidate that is missing, each that is there passes. -/
theorem passes_or_none_iff {accept : Bytes → Option γ} {candidate : Option Bytes} :
    Passes accept candidate ∨ candidate = none ∧ ([] : Bytes) = [] ↔
      ∀ value ∈ candidate, (accept value).isSome = true := by
  cases candidate with
  | none => simp
  | some value => simp [Passes]

theorem checked_host (absent : Bytes) (candidate : Option Bytes) :
    (checked (validateHost lib) cfg absent candidate).1 =
        { cfg with host := lastAccepted (acceptedHost lib) cfg.host candidate.toList } ∧
      ((checked (validateHost lib) cfg absent candidate).2 = [] ↔
        Passes (acceptedHost lib) candidate ∨ candidate = none ∧ absent = []) := by
  cases candidate with
  | none => exact ⟨rfl, by simp [checked, Passes]⟩
  | some host =>
      obtain ⟨hfield, hsilent⟩ := validateHost_eq lib cfg host
      exact ⟨hfield, by simpa [checked, Passes] using hsilent⟩

theorem checked_port (absent : Bytes) (candidate : Option Bytes) :
    (checked (validatePort lib) cfg absent candidate).1 =
        { cfg with port := lastAccepted acceptedPort cfg.port candidate.toList } ∧
      ((checked (validatePort lib) cfg absent candidate).2 = [] ↔
        Passes acceptedPort candidate ∨ candidate = none ∧ absent = []) := by
  cases candidate with
  | none => exact ⟨rfl, by simp [checked, Passes]⟩
  | some port =>
      obtain ⟨hfield, hsilent⟩ := validatePort_eq lib cfg port
      exact ⟨hfield, by simpa [checked, Passes] using hsilent⟩

/-! ### The file -/

/-- What the file says of a key: the last of the lines that assign it. -/
def said (fs : Files) (filename key : Bytes) : Option Bytes :=
  (assigned key ((getlines ((fs.read filename).getD [])).filterMap setting)).getLast?

theorem lookup_settings (content key : Bytes) :
    (settings content).lookup key =
      (assigned key ((getlines content).filterMap setting)).getLast? := by
  rw [settings_eq, lookup_replay_puts_last, Finmap.lookup_empty, Option.or_none]

/-- The configuration that is left of candidates for its fields. -/
def Config.ofCandidates (lib : Libraries) (hosts ports keyspaces : List Bytes) : Config where
  host := lastAccepted (acceptedHost lib) Defaults.HOST_DEFAULT hosts
  port := lastAccepted acceptedPort Defaults.PORT_DEFAULT ports
  keyspace := lastAccepted some Defaults.KEYSPACE_DEFAULT keyspaces

/-- A file is one check after the other. -/
theorem parseConfig_eq {content : Bytes} (hread : fs.read filename = some content) :
    let host := checked (validateHost lib) {}
      (ascii "Invalid host address: using " ++ Defaults.HOST_DEFAULT ++ ascii " instead.\n")
      ((settings content).lookup (ascii "host"))
    let port := checked (validatePort lib) host.1
      (ascii "Invalid port: using " ++ number host.1.port ++ ascii " instead.\n")
      ((settings content).lookup (ascii "port"))
    parseConfig lib fs filename =
      ({ port.1 with
          keyspace := ((settings content).lookup (ascii "keyspace")).getD port.1.keyspace },
        host.2 ++ port.2) := by
  rw [parseConfig, hread]
  dsimp only
  -- in the source, each field is looked up and checked on a branch of its own
  cases (settings content).lookup (ascii "host") <;>
    cases (settings content).lookup (ascii "port") <;>
    cases (settings content).lookup (ascii "keyspace") <;> rfl

/-- Each field of the file is checked on its own; what is printed is about the host
or the port. -/
theorem parseConfig_fields (fs : Files) (filename : Bytes) :
    (parseConfig lib fs filename).1 =
        Config.ofCandidates lib (said fs filename (ascii "host")).toList
          (said fs filename (ascii "port")).toList (said fs filename (ascii "keyspace")).toList ∧
      ((parseConfig lib fs filename).2 = [] ↔
        Passes (acceptedHost lib) (said fs filename (ascii "host")) ∧
        Passes acceptedPort (said fs filename (ascii "port"))) := by
  cases hread : fs.read filename with
  -- a file that does not open says nothing, and a message is printed
  | none =>
      have hsaid (key : Bytes) : said fs filename key = none := by
        rw [said, hread]
        rfl
      rw [parseConfig, hread, hsaid, hsaid, hsaid]
      exact ⟨rfl, by simp [ascii, Passes]⟩
  | some content =>
      have hsaid (key : Bytes) : (settings content).lookup key = said fs filename key := by
        rw [said, hread]
        exact lookup_settings content key
      have hhost := checked_host lib {} (ascii "Invalid host address: using " ++
        Defaults.HOST_DEFAULT ++ ascii " instead.\n") (said fs filename (ascii "host"))
      rw [parseConfig_eq lib hread, hsaid, hsaid, hsaid]
      constructor
      · dsimp only
        rw [(checked_port lib _ _ _).1, hhost.1]
        cases said fs filename (ascii "keyspace") <;> rfl
      · dsimp only
        rw [List.append_eq_nil_iff, hhost.2, (checked_port lib _ _ _).2]
        simp [ascii]

/-! ### The two programs -/

/-- The arguments come after the file. -/
theorem cliConfig_eq (fs : Files) (argv : List Bytes) :
    (cliConfig lib fs argv).1 =
        { host := lastAccepted (acceptedHost lib) (parseConfig lib fs configFilename).1.host
            argv[1]?.toList
          port := lastAccepted acceptedPort (parseConfig lib fs configFilename).1.port
            argv[2]?.toList
          keyspace := lastAccepted some (parseConfig lib fs configFilename).1.keyspace
            argv[3]?.toList } ∧
      ((cliConfig lib fs argv).2 = [] ↔
        (parseConfig lib fs configFilename).2 = [] ∧
        (∀ host ∈ argv[1]?, (acceptedHost lib host).isSome = true) ∧
        ∀ port ∈ argv[2]?, (acceptedPort port).isSome = true) := by
  have hhost := checked_host lib (parseConfig lib fs configFilename).1 [] argv[1]?
  have hport := checked_port lib
    (checked (validateHost lib) (parseConfig lib fs configFilename).1 [] argv[1]?).1 [] argv[2]?
  rw [cliConfig]
  dsimp only
  constructor
  · rw [hport.1, hhost.1]
    cases argv[3]? <;> rfl
  · rw [List.append_eq_nil_iff, List.append_eq_nil_iff, hhost.2, hport.2,
      passes_or_none_iff, passes_or_none_iff, and_assoc]

/-- A configuration has an address that is one. -/
theorem make_address_ofCandidates (h : lib.make_address Defaults.HOST_DEFAULT = none)
    (hosts ports keyspaces : List Bytes) :
    lib.make_address (Config.ofCandidates lib hosts ports keyspaces).host = none :=
  lastAccepted_induction (P := fun host => lib.make_address host = none) h
    (fun _ _ => make_address_of_acceptedHost lib) hosts

variable {lib}

/-- **Where the configurations come from.** Whatever the file and the arguments, each
field is the last candidate that passes, of the default, the last line of the file for
it, and the argument; nothing is printed exactly if there is a host and a port in the
file and all candidates for them pass; every host is an address; and without arguments
the command line has the configuration of a server that has read the same file. -/
theorem configured {fs fs' : Files}
    (hfile : fs'.read configFilename = (spawnConfig fs configFilename).read configFilename)
    (argv : List Bytes) :
    let host := said fs' configFilename (ascii "host")
    let port := said fs' configFilename (ascii "port")
    let keyspace := said fs' configFilename (ascii "keyspace")
    (serverConfig lib fs).2.1 =
        Config.ofCandidates lib host.toList port.toList keyspace.toList ∧
      (cliConfig lib fs' argv).1 =
        Config.ofCandidates lib (host.toList ++ argv[1]?.toList) (port.toList ++ argv[2]?.toList)
          (keyspace.toList ++ argv[3]?.toList) ∧
      ((serverConfig lib fs).2.2 = [] ↔ Passes (acceptedHost lib) host ∧ Passes acceptedPort port) ∧
      ((cliConfig lib fs' argv).2 = [] ↔
        (Passes (acceptedHost lib) host ∧ Passes acceptedPort port) ∧
        (∀ host ∈ argv[1]?, (acceptedHost lib host).isSome = true) ∧
        ∀ port ∈ argv[2]?, (acceptedPort port).isSome = true) ∧
      (lib.make_address Defaults.HOST_DEFAULT = none →
        lib.make_address (serverConfig lib fs).2.1.host = none ∧
        lib.make_address (cliConfig lib fs' argv).1.host = none) ∧
      (argv.length ≤ 1 → (cliConfig lib fs' argv).1 = (serverConfig lib fs).2.1) := by
  intro host port keyspace
  obtain ⟨hparsed, hsilent⟩ := parseConfig_fields lib fs' configFilename
  obtain ⟨hcli, hprinted⟩ := cliConfig_eq lib fs' argv
  have hsaid (key : Bytes) : said (spawnConfig fs configFilename) configFilename key =
      said fs' configFilename key := by
    rw [said, said, hfile]
  -- the server has the file written first, if there is none
  have hspawned := parseConfig_fields lib (spawnConfig fs configFilename) configFilename
  rw [hsaid, hsaid, hsaid] at hspawned
  obtain ⟨hserver, hserverSilent⟩ := hspawned
  have hclient : (cliConfig lib fs' argv).1 =
      Config.ofCandidates lib (host.toList ++ argv[1]?.toList) (port.toList ++ argv[2]?.toList)
        (keyspace.toList ++ argv[3]?.toList) := by
    rw [hcli, hparsed]
    simp only [Config.ofCandidates, lastAccepted_append]
    rfl
  -- the server keeps what the file gave it, the client goes on with the arguments
  refine ⟨hserver, hclient, hserverSilent, hprinted.trans (and_congr_left fun _ => hsilent),
    fun h => ⟨?_, ?_⟩, fun hargv => ?_⟩
  · rw [serverConfig, hserver]
    exact make_address_ofCandidates lib h _ _ _
  · rw [hclient]
    exact make_address_ofCandidates lib h _ _ _
  · have hnone (i : Nat) : argv[i + 1]? = none := List.getElem?_eq_none (by omega)
    rw [hclient, hnone, hnone, hnone, serverConfig, hserver]
    simp only [Option.toList_none, List.append_nil]
    rfl

/-- A host that does not pass hides the one before it, and arguments are tried last. -/
theorem configured_last_line :
    let lib : Libraries :=
      ⟨fun host => if host = ascii "::1" then none else some (ascii "Invalid argument"),
        fun _ => ascii "stoi"⟩
    let fs := filesWith configFilename (ascii "host=::1\nport=80\nhost= \n")
    (serverConfig lib fs).2.1 = ⟨ascii "127.0.0.1", 80, ascii "default"⟩ ∧
      (cliConfig lib fs [ascii "cli", ascii "::1", ascii "8080x"]).1 =
        ⟨ascii "::1", 8080, ascii "default"⟩ := by
  intro lib fs
  have hspawned : spawnConfig fs configFilename = fs := rfl
  obtain ⟨hserver, hclient, -⟩ := @configured lib fs fs (by rw [hspawned])
    [ascii "cli", ascii "::1", ascii "8080x"]
  have hread : fs.read configFilename = some (ascii "host=::1\nport=80\nhost= \n") :=
    read_filesWith _ _
  have hhost : said fs configFilename (ascii "host") = some (ascii " ") := by
    rw [said, hread]
    decide
  have hport : said fs configFilename (ascii "port") = some (ascii "80") := by
    rw [said, hread]
    decide
  have hkeyspace : said fs configFilename (ascii "keyspace") = none := by
    rw [said, hread]
    decide
  rw [hhost, hport, hkeyspace] at hserver hclient
  exact ⟨hserver.trans (by decide), hclient.trans (by decide)⟩

end Taproot
