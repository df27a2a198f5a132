import Meeting.Lib.GoStrings

/-!
# Meeting.Server.Config — the configuration of the server (`configtypes.go`, `configread.go`)

`ReadConfig` starts with the defaults, reads YAML files over them, and then the environment.  The YAML decoder is not
part of the repository: `Files` stands for it.  Most setters store what they can read from their variable and leave the
field as it is otherwise (`setEnv`).  `setEnvBool` has no such case: it stores `false` if its variable is not set.

* `OnlyOverrides`: a field changes only if one of its variables is set, and ICE servers are only added;
* `only_overrides_iff`: `ReadConfigFromEnv` does so exactly if it does not turn a jitter buffer off that the files have
  turned on;
* `jitterBuffer_readConfig`: the files have no influence on the jitter buffer at all.
-/

namespace Meeting.Server

open Lib

/-! ### Types -/

/-- `AuthType`: a string that the YAML files can set to anything, with two values that are known. -/
abbrev AuthType := GoString

def authTypeSecret : AuthType := GoString.ofString "secret"

def authTypeNone : AuthType := []

structure AuthSecret where
  username : GoString
  secret : GoString
  deriving DecidableEq

structure ICEServer where
  urls : List GoString
  authType : AuthType
  authSecret : AuthSecret
  deriving DecidableEq

structure TLSConfig where
  cert : GoString
  key : GoString
  deriving DecidableEq

abbrev StoreType := GoString

def storeTypeMemory : StoreType := GoString.ofString "memory"

def storeTypeRedis : StoreType := GoString.ofString "redis"

/-- `RedisConfig`; `keyPrefix` is `Prefix`. -/
structure RedisConfig where
  host : GoString
  port : ℤ
  keyPrefix : GoString
  deriving DecidableEq

structure StoreConfig where
  type : StoreType
  redis : RedisConfig
  deriving DecidableEq

abbrev NetworkType := GoString

def networkTypeMesh : NetworkType := GoString.ofString "mesh"

def networkTypeSFU : NetworkType := GoString.ofString "sfu"

structure NetworkConfigSFU where
  interfaces : List GoString
  jitterBuffer : Bool
  deriving DecidableEq

structure NetworkConfig where
  type : NetworkType
  sfu : NetworkConfigSFU
  deriving DecidableEq

structure PrometheusConfig where
  accessToken : GoString
  deriving DecidableEq

structure Config where
  baseURL : GoString
  bindHost : GoString
  bindPort : ℤ
  iceServers : List ICEServer
  tls : TLSConfig
  store : StoreConfig
  network : NetworkConfig
  prometheus : PrometheusConfig
  jwtSecret : GoString
  recordServiceURL : GoString
  deriving DecidableEq

/-! ### Setters -/

/-- The variables that are set. -/
abbrev Environment := GoString → Option GoString

/-- `os.Getenv`, which does not tell a variable that is not set from an empty one. -/
def getenv (env : Environment) (name : GoString) : GoString := (env name).getD []

section Setters

variable {α : Type*} (env : Environment) (intSize : ℕ)

/-- What most setters do: a value that can be read from the variable is stored. -/
def setEnv (parse : GoString → Option α) (dest : α) (name : GoString) : α := (parse (getenv env name)).getD dest

def setEnvSlice (dest : List GoString) (name : GoString) : List GoString :=
  dest ++ ((getenv env name).splitOn 0x2C).filter fun v => v ≠ []

def setEnvString (dest name : GoString) : GoString :=
  setEnv env (fun value => if value ≠ [] then some value else none) dest name

def setEnvInt (dest : ℤ) (name : GoString) : ℤ := setEnv env (GoString.atoi intSize) dest name

/-- `setEnvBool`, which stores a value in any case. -/
def setEnvBool (_dest : Bool) (name : GoString) : Bool := getenv env name = GoString.ofString "true"

def setEnvAuthType (authType : AuthType) (name : GoString) : AuthType :=
  setEnv env (fun value =>
    if value = authTypeSecret then some authTypeSecret
    else if value = authTypeNone then some authTypeNone
    else none) authType name

def setEnvNetworkType (networkType : NetworkType) (name : GoString) : NetworkType :=
  setEnv env (fun value =>
    if value = networkTypeMesh then some networkTypeMesh
    else if value = networkTypeSFU then some networkTypeSFU
    else none) networkType name

def setEnvStoreType (storeType : StoreType) (name : GoString) : StoreType :=
  setEnv env (fun value =>
    if value = storeTypeRedis then some storeTypeRedis
    else if value = storeTypeMemory then some storeTypeMemory
    else none) storeType name

def setEnvStringArray (interfaces : List GoString) (name : GoString) : List GoString :=
  setEnv env (fun value => if value ≠ [] then some (value.splitOn 0x2C) else none) interfaces name

end Setters

/-! ### Reading -/

section Reading

variable (env : Environment) (intSize : ℕ) (pre : GoString)

/-- The name of a variable, behind the prefix. -/
def variableName (name : String) : GoString := pre ++ GoString.ofString name

/-- The ICE server of the environment, which is added if it has a URL. -/
def readICEServer (iceServers : List ICEServer) : List ICEServer :=
  let urls := setEnvSlice env [] (variableName pre "ICE_SERVER_URLS")
  if 0 < urls.length then
    let ice : ICEServer :=
      { urls
        authType := setEnvAuthType env [] (variableName pre "ICE_SERVER_AUTH_TYPE")
        authSecret :=
          { secret := setEnvString env [] (variableName pre "ICE_SERVER_SECRET")
            username := setEnvString env [] (variableName pre "ICE_SERVER_USERNAME") } }
    if iceServers.length < 1 then [ice] else iceServers ++ [ice]
  else iceServers

def readConfigFromEnv (c : Config) : Config where
  baseURL := setEnvString env c.baseURL (variableName pre "BASE_URL")
  bindHost := setEnvString env c.bindHost (variableName pre "BIND_HOST")
  bindPort := setEnvInt env intSize c.bindPort (variableName pre "BIND_PORT")
  tls :=
    { cert := setEnvString env c.tls.cert (variableName pre "TLS_CERT")
      key := setEnvString env c.tls.key (variableName pre "TLS_KEY") }
  jwtSecret := setEnvString env c.jwtSecret (variableName pre "JWT_SECRET")
  recordServiceURL := setEnvString env c.recordServiceURL (variableName pre "RECORD_SERVICE_URL")
  store :=
    { type := setEnvStoreType env c.store.type (variableName pre "STORE_TYPE")
      redis :=
        { host := setEnvString env c.store.redis.host (variableName pre "STORE_REDIS_HOST")
          port := setEnvInt env intSize c.store.redis.port (variableName pre "STORE_REDIS_PORT")
          keyPrefix := setEnvString env c.store.redis.keyPrefix (variableName pre "STORE_REDIS_PREFIX") } }
  network :=
    { type := setEnvNetworkType env c.network.type (variableName pre "NETWORK_TYPE")
      sfu :=
        { interfaces := setEnvStringArray env c.network.sfu.interfaces (variableName pre "NETWORK_SFU_INTERFACES")
          jitterBuffer := setEnvBool env c.network.sfu.jitterBuffer (variableName pre "NETWORK_SFU_JITTER_BUFFER") } }
  iceServers := readICEServer env pre c.iceServers
  prometheus :=
    { accessToken := setEnvString env c.prometheus.accessToken (variableName pre "PROMETHEUS_ACCESS_TOKEN") }

end Reading

/-- Opening a file, with the error or its content, and decoding YAML into a configuration, which may have changed when
there is an error. -/
structure Files where
  openFile : GoString → Except GoString GoString
  decode : GoString → Config → Config × Option GoString

section Files

variable (files : Files)

def readConfigYAML (content : GoString) (c : Config) : Config × Option GoString :=
  let r := files.decode content c
  (r.1, r.2.map fun err => GoString.ofString "Error parsing YAML: " ++ err)

def readConfigFile (filename : GoString) (c : Config) : Config × Option GoString :=
  match files.openFile filename with
  | .error err => (c, some (GoString.ofString "Error opening YAML file: " ++ err))
  | .ok content => readConfigYAML files content c

/-- `ReadConfigFiles`, which stops at the first error. -/
def readConfigFiles : List GoString → Config → Config × Option GoString
  | [], c => (c, none)
  | filename :: rest, c =>
    match readConfigFile files filename c with
    | (c, none) => readConfigFiles rest c
    | (c, some err) => (c, some err)

/-- The default secret, one word a line. -/
def defaultSecret : String := "\n\t\t\t\t\t".intercalate
  [ "jfoObcXCpJLLeYfYimqF", "EksfBfMxFZjpQIsoqX2K", "3fc1z1IiVeOdAFWrFOVh", "hmg6KfrTK4Gguy9tGegL"
  , "RC1cJgcRw2VoGKAf1dVb", "v8aYaPGeBa39VnYRp6QE", "40t10f4idDFWfe3sCjng", "8zWsAgJYI5O96Dj7G6Ve"
  , "wVLXVcjUduD2cCD4fdUC", "t9NvmjVT3A7ncSF0gPd8", "pCXv6efqeAPc1KZBxqdC", "1MmrfMlHdrpWWAwu3mGQ"
  , "gGqDV7FHCQQdN2bK9y5c", "oD6FwwNYCslA6Avy8omd", "o7tLjVBd9jQGaX88fBHG", "WDEpjBobeKnBeOUWBrUV"
  , "B8dkCdLiDR5iKYNK7DNL", "ZONh8VFxOd3jLgXrrRRq", "LZWVuUxgeOjJCoJZ15ck", "46C7kV3iiNJG0zsUcN0I" ]

/-- A configuration that is declared, and set up by `InitConfig`. -/
def initConfig : Config where
  baseURL := []
  bindHost := []
  bindPort := 3000
  iceServers := []
  tls := ⟨[], []⟩
  store := ⟨storeTypeMemory, ⟨[], 0, []⟩⟩
  network := ⟨networkTypeMesh, ⟨[], false⟩⟩
  prometheus := ⟨[]⟩
  jwtSecret := GoString.ofString defaultSecret
  recordServiceURL := GoString.ofString "http://localhost:8081"

/-- `ReadConfig`, which reads the environment after an error, too. -/
def readConfig (env : Environment) (intSize : ℕ) (filenames : List GoString) : Config × Option GoString :=
  let r := readConfigFiles files filenames initConfig
  (readConfigFromEnv env intSize (GoString.ofString "PEERCALLS_") r.1, r.2)

end Files

/-! ### The fields and their variables -/

/-- The fields of a `Config`, those of its parts included. -/
inductive Field where
  | baseURL | bindHost | bindPort | iceServers | tlsCert | tlsKey | storeType | redisHost | redisPort | redisKeyPrefix
  | networkType | interfaces | jitterBuffer | accessToken | jwtSecret | recordServiceURL
  deriving DecidableEq

/-- The variables of a field, without the prefix. -/
def Field.variables : Field → List String
  | .baseURL => ["BASE_URL"]
  | .bindHost => ["BIND_HOST"]
  | .bindPort => ["BIND_PORT"]
  | .iceServers => ["ICE_SERVER_URLS", "ICE_SERVER_AUTH_TYPE", "ICE_SERVER_SECRET", "ICE_SERVER_USERNAME"]
  | .tlsCert => ["TLS_CERT"]
  | .tlsKey => ["TLS_KEY"]
  | .storeType => ["STORE_TYPE"]
  | .redisHost => ["STORE_REDIS_HOST"]
  | .redisPort => ["STORE_REDIS_PORT"]
  | .redisKeyPrefix => ["STORE_REDIS_PREFIX"]
  | .networkType => ["NETWORK_TYPE"]
  | .interfaces => ["NETWORK_SFU_INTERFACES"]
  | .jitterBuffer => ["NETWORK_SFU_JITTER_BUFFER"]
  | .accessToken => ["PROMETHEUS_ACCESS_TOKEN"]
  | .jwtSecret => ["JWT_SECRET"]
  | .recordServiceURL => ["RECORD_SERVICE_URL"]

def Field.Value : Field → Type
  | .bindPort | .redisPort => ℤ
  | .iceServers => List ICEServer
  | .interfaces => List GoString
  | .jitterBuffer => Bool
  | _ => GoString

def Config.get (c : Config) : (f : Field) → f.Value
  | .baseURL => c.baseURL
  | .bindHost => c.bindHost
  | .bindPort => c.bindPort
  | .iceServers => c.iceServers
  | .tlsCert => c.tls.cert
  | .tlsKey => c.tls.key
  | .storeType => c.store.type
  | .redisHost => c.store.redis.host
  | .redisPort => c.store.redis.port
  | .redisKeyPrefix => c.store.redis.keyPrefix
  | .networkType => c.network.type
  | .interfaces => c.network.sfu.interfaces
  | .jitterBuffer => c.network.sfu.jitterBuffer
  | .accessToken => c.prometheus.accessToken
  | .jwtSecret => c.jwtSecret
  | .recordServiceURL => c.recordServiceURL

/-- A configuration is its fields. -/
theorem Config.ext_get {c c' : Config} (h : ∀ f, c'.get f = c.get f) : c' = c := by
  rcases c with ⟨_, _, _, _, ⟨_, _⟩, ⟨_, ⟨_, _, _⟩⟩, ⟨_, ⟨_, _⟩⟩, ⟨_⟩, _, _⟩
  rcases c' with ⟨_, _, _, _, ⟨_, _⟩, ⟨_, ⟨_, _, _⟩⟩, ⟨_, ⟨_, _⟩⟩, ⟨_⟩, _, _⟩
  obtain rfl := h .baseURL
  obtain rfl := h .bindHost
  obtain rfl := h .bindPort
  obtain rfl := h .iceServers
  obtain rfl := h .tlsCert
  obtain rfl := h .tlsKey
  obtain rfl := h .storeType
  obtain rfl := h .redisHost
  obtain rfl := h .redisPort
  obtain rfl := h .redisKeyPrefix
  obtain rfl := h .networkType
  obtain rfl := h .interfaces
  obtain rfl := h .jitterBuffer
  obtain rfl := h .accessToken
  obtain rfl := h .jwtSecret
  obtain rfl := h .recordServiceURL
  rfl

/-- No variable of a field is set, or they are empty. -/
def Unset (env : Environment) (pre : GoString) (f : Field) : Prop :=
  ∀ name ∈ f.variables, getenv env (variableName pre name) = []

/-- **Variables only override what they set.** -/
structure OnlyOverrides (env : Environment) (pre : GoString) (c c' : Config) : Prop where
  unchanged : ∀ f, Unset env pre f → c'.get f = c.get f
  appended : ∃ added : List ICEServer, added.length ≤ 1 ∧ c'.iceServers = c.iceServers ++ added
  identity : (∀ f, Unset env pre f) → c' = c

/-! ### What is overridden -/

section Overrides

variable {α : Type*} {env : Environment} {intSize : ℕ} {pre name : GoString}

theorem setEnv_of_empty {parse : GoString → Option α} (hparse : parse [] = none) (dest : α)
    (h : getenv env name = []) : setEnv env parse dest name = dest := by
  rw [setEnv, h, hparse]
  rfl

theorem setEnvString_of_empty (dest : GoString) (h : getenv env name = []) : setEnvString env dest name = dest :=
  setEnv_of_empty rfl dest h

theorem setEnvInt_of_empty (dest : ℤ) (h : getenv env name = []) : setEnvInt env intSize dest name = dest :=
  setEnv_of_empty (GoString.atoi_nil intSize) dest h

theorem setEnvNetworkType_of_empty (networkType : NetworkType) (h : getenv env name = []) :
    setEnvNetworkType env networkType name = networkType :=
  setEnv_of_empty (by decide +kernel) networkType h

theorem setEnvStoreType_of_empty (storeType : StoreType) (h : getenv env name = []) :
    setEnvStoreType env storeType name = storeType :=
  setEnv_of_empty (by decide +kernel) storeType h

theorem setEnvStringArray_of_empty (interfaces : List GoString) (h : getenv env name = []) :
    setEnvStringArray env interfaces name = interfaces :=
  setEnv_of_empty rfl interfaces h

theorem setEnvSlice_of_empty (dest : List GoString) (h : getenv env name = []) : setEnvSlice env dest name = dest := by
  rw [setEnvSlice, h]
  exact List.append_nil dest

theorem setEnvBool_of_empty (dest : Bool) (h : getenv env name = []) : setEnvBool env dest name = false := by
  rw [setEnvBool, h]
  decide +kernel

/-- At most one ICE server is added, and none without a URL. -/
theorem readICEServer_eq (env : Environment) (pre : GoString) (iceServers : List ICEServer) :
    ∃ added : List ICEServer, added.length ≤ 1 ∧ readICEServer env pre iceServers = iceServers ++ added ∧
      (getenv env (variableName pre "ICE_SERVER_URLS") = [] → added = []) := by
  have hempty : getenv env (variableName pre "ICE_SERVER_URLS") = [] →
      ¬ 0 < (setEnvSlice env [] (variableName pre "ICE_SERVER_URLS")).length := by
    intro h
    rw [setEnvSlice_of_empty [] h]
    exact Nat.lt_irrefl 0
  unfold readICEServer
  simp only
  split_ifs with hurls hnone
  · obtain rfl : iceServers = [] := List.length_eq_zero_iff.mp (Nat.lt_one_iff.mp hnone)
    exact ⟨[_], le_rfl, rfl, fun h => absurd hurls (hempty h)⟩
  · exact ⟨[_], le_rfl, rfl, fun h => absurd hurls (hempty h)⟩
  · exact ⟨[], Nat.zero_le 1, (List.append_nil _).symm, fun _ => rfl⟩

/-- Every field but the jitter buffer is left as it is if its variables are not set. -/
theorem get_readConfigFromEnv {c : Config} {f : Field} (hf : f ≠ .jitterBuffer) (h : Unset env pre f) :
    (readConfigFromEnv env intSize pre c).get f = c.get f := by
  cases f with
  | jitterBuffer => exact absurd rfl hf
  | iceServers =>
    obtain ⟨added, -, hread, hadded⟩ := readICEServer_eq env pre c.iceServers
    show readICEServer env pre c.iceServers = c.iceServers
    rw [hread, hadded (h _ List.mem_cons_self), List.append_nil]
  | bindPort | redisPort => exact setEnvInt_of_empty _ (h _ List.mem_cons_self)
  | storeType => exact setEnvStoreType_of_empty _ (h _ List.mem_cons_self)
  | networkType => exact setEnvNetworkType_of_empty _ (h _ List.mem_cons_self)
  | interfaces => exact setEnvStringArray_of_empty _ (h _ List.mem_cons_self)
  | baseURL | bindHost | tlsCert | tlsKey | redisHost | redisKeyPrefix | accessToken | jwtSecret | recordServiceURL =>
    exact setEnvString_of_empty _ (h _ List.mem_cons_self)

/-- **When variables only override what they set**: the jitter buffer of the configuration is off, or its variable is
set to something. -/
theorem only_overrides_iff (env : Environment) (intSize : ℕ) (pre : GoString) (c : Config) :
    OnlyOverrides env pre c (readConfigFromEnv env intSize pre c) ↔
      (c.network.sfu.jitterBuffer = false ∨ getenv env (variableName pre "NETWORK_SFU_JITTER_BUFFER") ≠ []) := by
  constructor
  · intro h
    by_contra hlost
    obtain ⟨hon, hunset⟩ := not_or.mp hlost
    have hvar := not_not.mp hunset
    have hsame : setEnvBool env c.network.sfu.jitterBuffer _ = c.network.sfu.jitterBuffer :=
      h.unchanged .jitterBuffer (List.forall_mem_singleton.mpr hvar)
    rw [setEnvBool_of_empty _ hvar] at hsame
    exact hon hsame.symm
  · intro h
    have hunchanged : ∀ f, Unset env pre f → (readConfigFromEnv env intSize pre c).get f = c.get f := by
      intro f hf
      by_cases hjitter : f = .jitterBuffer
      · subst hjitter
        have hvar := hf _ List.mem_cons_self
        have hoff : c.network.sfu.jitterBuffer = false := h.resolve_right (not_not.mpr hvar)
        show setEnvBool env c.network.sfu.jitterBuffer _ = c.network.sfu.jitterBuffer
        rw [setEnvBool_of_empty _ hvar, hoff]
      · exact get_readConfigFromEnv hjitter hf
    obtain ⟨added, hlen, hread, -⟩ := readICEServer_eq env pre c.iceServers
    exact ⟨hunchanged, ⟨added, hlen, hread⟩, fun hall => Config.ext_get fun f => hunchanged f (hall f)⟩

end Overrides

/-- A configuration with `jitter_buffer: true`, and no variable at all. -/
def jitterBufferOn : Config := { initConfig with network := ⟨networkTypeSFU, ⟨[], true⟩⟩ }

/-- The jitter buffer is turned off. -/
theorem jitter_buffer_lost :
    (∀ f, Unset (fun _ => none) (GoString.ofString "PEERCALLS_") f) ∧
      readConfigFromEnv (fun _ => none) 64 (GoString.ofString "PEERCALLS_") jitterBufferOn =
        { jitterBufferOn with network := ⟨networkTypeSFU, ⟨[], false⟩⟩ } ∧
      ¬ OnlyOverrides (fun _ => none) (GoString.ofString "PEERCALLS_") jitterBufferOn
        (readConfigFromEnv (fun _ => none) 64 (GoString.ofString "PEERCALLS_") jitterBufferOn) := by
  have hunset : ∀ f, Unset (fun _ => none) (GoString.ofString "PEERCALLS_") f := fun _ _ _ => rfl
  have hlost : readConfigFromEnv (fun _ => none) 64 (GoString.ofString "PEERCALLS_") jitterBufferOn =
      { jitterBufferOn with network := ⟨networkTypeSFU, ⟨[], false⟩⟩ } := by
    apply Config.ext_get
    intro f
    by_cases hjitter : f = .jitterBuffer
    · subst hjitter
      exact setEnvBool_of_empty true rfl
    · rw [get_readConfigFromEnv hjitter (hunset f)]
      cases f <;> first | rfl | exact absurd rfl hjitter
  refine ⟨hunset, hlost, fun h => ?_⟩
  have hsame := congrArg (fun c : Config => c.network.sfu.jitterBuffer) (hlost.symm.trans (h.identity hunset))
  exact absurd hsame (by decide)

/-- **The files have no say in the jitter buffer**: it is on exactly if its variable is `true`. -/
theorem jitterBuffer_readConfig (files : Files) (env : Environment) (intSize : ℕ) (filenames : List GoString) :
    (readConfig files env intSize filenames).1.network.sfu.jitterBuffer = true ↔
      getenv env (GoString.ofString "PEERCALLS_NETWORK_SFU_JITTER_BUFFER") = GoString.ofString "true" := by
  have hname : variableName (GoString.ofString "PEERCALLS_") "NETWORK_SFU_JITTER_BUFFER" =
      GoString.ofString "PEERCALLS_NETWORK_SFU_JITTER_BUFFER" := by decide +kernel
  rw [← hname]
  exact decide_eq_true_iff

end Meeting.Server
