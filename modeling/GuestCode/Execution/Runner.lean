import GuestCode.Json.Writer

/-!
# The runner

The program that runs a snippet in a process of its own. It reads one message with the snippet, the
names of the capabilities and the globals, runs the snippet in a fresh context, and writes messages
of its own, one a line: what the snippet logs, the calls it makes, and its result.

* `Runner.fileName`, `Runner.program`: the name of its file, and its text
-/

namespace GuestCode.Runner

/-- The name of the file of the runner. -/
def fileName : String := "codemode-runner.js"

/-- What is done in the context of a snippet before it is run. Values cross into the context as JSON
texts, so that nothing of the host can be reached from it. -/
def contextSetup : String :=
  "\n".intercalate
   ["(function (bridge, emit, manifestJson, globalsJson) \x7b",
    "  \"use strict\";",
    "  const g = globalThis;",
    "",
    "  const format = (value) => \x7b",
    "    if (typeof value === \"string\") return value;",
    "    if (value instanceof Error) return String(value);",
    "    if (value === undefined || typeof value === \"function\" || typeof value === " ++
      "\"symbol\" || typeof value === \"bigint\") \x7b",
    "      return String(value);",
    "    \x7d",
    "    try \x7b",
    "      const text = JSON.stringify(value, null, 2);",
    "      return text === undefined ? String(value) : text;",
    "    \x7d catch (e) \x7b",
    "      return String(value);",
    "    \x7d",
    "  \x7d;",
    "  const line = (args) => Array.prototype.map.call(args, format).join(\" \");",
    "  const writer = (level, prefix) => function () \x7b emit(level, prefix + " ++
      "line(arguments)); \x7d;",
    "  const console = Object.freeze(\x7b",
    "    log: writer(\"log\", \"\"),",
    "    info: writer(\"log\", \"\"),",
    "    debug: writer(\"log\", \"\"),",
    "    warn: writer(\"warn\", \"[WARN] \"),",
    "    error: writer(\"error\", \"[ERROR] \"),",
    "  \x7d);",
    "",
    "  const call = (capability, method, args) => new Promise((resolve, reject) => \x7b",
    "    let payload;",
    "    try \x7b",
    "      payload = JSON.stringify(args);",
    "    \x7d catch (e) \x7b",
    "      reject(new TypeError(\"Arguments to \" + capability + \".\" + method + \" " ++
      "must be JSON-serializable\"));",
    "      return;",
    "    \x7d",
    "    bridge(",
    "      capability,",
    "      method,",
    "      payload === undefined ? \"[]\" : payload,",
    "      (text) => \x7b",
    "        try \x7b",
    "          resolve(JSON.parse(text));",
    "        \x7d catch (e) \x7b",
    "          resolve(text);",
    "        \x7d",
    "      \x7d,",
    "      (message) => reject(new Error(message))",
    "    );",
    "  \x7d);",
    "",
    "  const makeCapability = (name, methods) => \x7b",
    "    const target = Object.create(null);",
    "    for (const method of methods) \x7b",
    "      target[method] = (...args) => call(name, method, args);",
    "    \x7d",
    "    Object.freeze(target);",
    "    return new Proxy(target, \x7b",
    "      get(obj, prop) \x7b",
    "        if (typeof prop !== \"string\") return undefined;",
    "        if (prop in obj) return obj[prop];",
    "        if (prop === \"then\" || prop === \"toJSON\") return undefined;",
    "        return () => Promise.reject(new TypeError(",
    "          name + \".\" + prop + \" is not a function. Available methods: \" + " ++
      "methods.join(\", \")",
    "        ));",
    "      \x7d,",
    "      set() \x7b return false; \x7d,",
    "      defineProperty() \x7b return false; \x7d,",
    "      deleteProperty() \x7b return false; \x7d,",
    "    \x7d);",
    "  \x7d;",
    "",
    "  const deepFreeze = (value) => \x7b",
    "    if (value && typeof value === \"object\") \x7b",
    "      Object.freeze(value);",
    "      for (const key of Object.keys(value)) deepFreeze(value[key]);",
    "    \x7d",
    "    return value;",
    "  \x7d;",
    "",
    "  const define = (key, value) => \x7b",
    "    Object.defineProperty(g, key, \x7b value, writable: false, configurable: false, " ++
      "enumerable: true \x7d);",
    "  \x7d;",
    "",
    "  define(\"console\", console);",
    "  const manifest = JSON.parse(manifestJson);",
    "  for (const name of Object.keys(manifest)) define(name, makeCapability(name, " ++
      "manifest[name]));",
    "  const globals = JSON.parse(globalsJson);",
    "  for (const key of Object.keys(globals)) \x7b",
    "    if (!(key in manifest) && key !== \"console\") define(key, " ++
      "deepFreeze(globals[key]));",
    "  \x7d",
    "",
    "  const toOutput = (value) => \x7b",
    "    if (value === undefined) return \"null\";",
    "    if (typeof value === \"function\" || typeof value === \"symbol\" || typeof " ++
      "value === \"bigint\") \x7b",
    "      return JSON.stringify(String(value));",
    "    \x7d",
    "    try \x7b",
    "      const text = JSON.stringify(value);",
    "      return text === undefined ? JSON.stringify(String(value)) : text;",
    "    \x7d catch (e) \x7b",
    "      return JSON.stringify(String(value));",
    "    \x7d",
    "  \x7d;",
    "",
    "  const describe = (error) => \x7b",
    "    if (error && typeof error === \"object\") \x7b",
    "      const name = error.name ? String(error.name) : \"Error\";",
    "      const message = error.message !== undefined ? String(error.message) : " ++
      "String(error);",
    "      return JSON.stringify(\x7b name, message \x7d);",
    "    \x7d",
    "    return JSON.stringify(\x7b name: \"Error\", message: String(error) \x7d);",
    "  \x7d;",
    "",
    "  return Object.freeze(\x7b toOutput, describe \x7d);",
    "\x7d)"]

/-- The part of the runner before the text of the context setup. -/
def start : String :=
  "\n".intercalate
   ["\"use strict\";",
    "const vm = require(\"vm\");",
    "const readline = require(\"readline\");",
    "",
    "const SETUP = "]

/-- The part of the runner after the text of the context setup. -/
def rest : String :=
  "\n".intercalate
   [";",
    "",
    "let started = false;",
    "let finished = false;",
    "let nextId = 1;",
    "const pending = new Map();",
    "",
    "function send(message) \x7b",
    "  if (!finished) process.stdout.write(JSON.stringify(message) + \"\\n\");",
    "\x7d",
    "",
    "function finish(message) \x7b",
    "  if (finished) return;",
    "  finished = true;",
    "  process.stdout.write(JSON.stringify(message) + \"\\n\", () => process.exit(0));",
    "\x7d",
    "",
    "function fail(phase, info) \x7b",
    "  finish(\x7b type: \"result\", ok: false, phase, errorName: info.name, error: " ++
      "info.message \x7d);",
    "\x7d",
    "",
    "function outerInfo(error) \x7b",
    "  if (error && typeof error === \"object\") \x7b",
    "    return \x7b name: String(error.name || \"Error\"), message: " ++
      "String(error.message) \x7d;",
    "  \x7d",
    "  return \x7b name: \"Error\", message: String(error) \x7d;",
    "\x7d",
    "",
    "function bridge(capability, method, argsJson, onResolve, onReject) \x7b",
    "  const id = nextId++;",
    "  pending.set(id, \x7b onResolve, onReject \x7d);",
    "  send(\x7b",
    "    type: \"call\",",
    "    id,",
    "    capability: String(capability),",
    "    method: String(method),",
    "    args: JSON.parse(String(argsJson)),",
    "  \x7d);",
    "\x7d",
    "",
    "function emit(level, text) \x7b",
    "  send(\x7b type: \"log\", level: String(level), text: String(text) \x7d);",
    "\x7d",
    "",
    "function handleReply(message) \x7b",
    "  const entry = pending.get(message.id);",
    "  if (!entry) return;",
    "  pending.delete(message.id);",
    "  if (typeof message.error === \"string\") \x7b",
    "    entry.onReject(message.error);",
    "  \x7d else if (typeof message.result === \"string\") \x7b",
    "    entry.onResolve(message.result);",
    "  \x7d else \x7b",
    "    entry.onResolve(JSON.stringify(message.result === undefined ? null : " ++
      "message.result));",
    "  \x7d",
    "\x7d",
    "",
    "function start(message) \x7b",
    "  const context = vm.createContext();",
    "  const setup = vm.runInContext(SETUP, context, \x7b filename: " ++
      "\"codemode-setup.js\" \x7d);",
    "  const helpers = setup(",
    "    bridge,",
    "    emit,",
    "    JSON.stringify(message.bindings || \x7b\x7d),",
    "    JSON.stringify(message.globals || \x7b\x7d)",
    "  );",
    "  const describe = (error) => \x7b",
    "    try \x7b",
    "      return JSON.parse(helpers.describe(error));",
    "    \x7d catch (e) \x7b",
    "      return outerInfo(error);",
    "    \x7d",
    "  \x7d;",
    "",
    "  let script;",
    "  try \x7b",
    "    script = new vm.Script(String(message.code), \x7b filename: \"guest.js\" \x7d);",
    "  \x7d catch (error) \x7b",
    "    fail(\"compile\", outerInfo(error));",
    "    return;",
    "  \x7d",
    "",
    "  let completion;",
    "  try \x7b",
    "    completion = script.runInContext(context);",
    "  \x7d catch (error) \x7b",
    "    fail(\"run\", describe(error));",
    "    return;",
    "  \x7d",
    "",
    "  Promise.resolve(completion).then(",
    "    (value) => finish(\x7b type: \"result\", ok: true, phase: \"run\", output: " ++
      "JSON.parse(helpers.toOutput(value)) \x7d),",
    "    (error) => fail(\"run\", describe(error))",
    "  );",
    "\x7d",
    "",
    "process.on(\"unhandledRejection\", (reason) => fail(\"run\", outerInfo(reason)));",
    "",
    "const input = readline.createInterface(\x7b input: process.stdin, terminal: false " ++
      "\x7d);",
    "input.on(\"line\", (line) => \x7b",
    "  if (!line.trim()) return;",
    "  let message;",
    "  try \x7b",
    "    message = JSON.parse(line);",
    "  \x7d catch (e) \x7b",
    "    return;",
    "  \x7d",
    "  if (message.type === \"start\" && !started) \x7b",
    "    started = true;",
    "    start(message);",
    "  \x7d else if (message.type === \"reply\") \x7b",
    "    handleReply(message);",
    "  \x7d",
    "\x7d);",
    "input.on(\"close\", () => \x7b",
    "  if (!finished) fail(\"run\", \x7b name: \"Error\", message: \"Host closed the " ++
      "channel before the snippet finished\" \x7d);",
    "\x7d);",
    ""]

/-- The text of the runner. -/
def program : String := start ++ Json.quote true contextSetup ++ rest

end GuestCode.Runner
