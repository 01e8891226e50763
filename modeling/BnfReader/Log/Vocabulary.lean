import BnfReader.Log.Level

/-! Words about logs.

Settings name a level by a word. Some words mean a number, a truth value or a text instead of
a level, and some mean something that is no value at all. -/
namespace BnfReader.Log

/-- The words that mean a value. -/
def valueWords : List (String × Json) :=
  Level.spellings.map (fun (name, level) => (name, .int level)) ++
  [("logMultiprocessing", .bool true), ("logProcesses", .bool true), ("logThreads", .bool true),
   ("raiseExceptions", .bool true), ("BASIC_FORMAT", .string "%(levelname)s:%(name)s:%(message)s"),
   ("__date__", .string "07 February 2010"), ("__name__", .string "logging"),
   ("__package__", .string "logging"), ("__status__", .string "production"),
   ("__version__", .string "0.5.1.2")]

/-- The words that mean something else. -/
def otherWords : List String :=
  ["BufferingFormatter", "FileHandler", "Filter", "Filterer", "Formatter", "GenericAlias",
   "Handler", "LogRecord", "Logger", "LoggerAdapter", "Manager", "NullHandler", "PercentStyle",
   "PlaceHolder", "RootLogger", "StrFormatStyle", "StreamHandler", "StringTemplateStyle",
   "Template", "_STYLES", "_StderrHandler", "__all__", "__annotations__", "__builtins__",
   "__class__", "__delattr__", "__dict__", "__dir__", "__eq__", "__format__", "__ge__",
   "__getattribute__", "__getstate__", "__gt__", "__hash__", "__init__", "__init_subclass__",
   "__le__", "__loader__", "__lt__", "__ne__", "__new__", "__path__", "__reduce__",
   "__reduce_ex__", "__repr__", "__setattr__", "__sizeof__", "__spec__", "__str__",
   "__subclasshook__", "_acquireLock", "_addHandlerRef", "_after_at_fork_child_reinit_locks",
   "_at_fork_reinit_lock_weakset", "_checkLevel", "_defaultFormatter", "_defaultLastResort",
   "_handlerList", "_handlers", "_is_internal_frame", "_levelToName", "_lock",
   "_logRecordFactory", "_loggerClass", "_nameToLevel", "_register_at_fork_reinit_lock",
   "_releaseLock", "_removeHandlerRef", "_showwarning", "_startTime", "_str_formatter",
   "_warnings_showwarning", "addLevelName", "atexit", "basicConfig", "captureWarnings",
   "collections", "config", "critical", "currentframe", "debug", "disable", "error", "exception",
   "fatal", "getLevelName", "getLevelNamesMapping", "getLogRecordFactory", "getLogger",
   "getLoggerClass", "handlers", "info", "io", "lastResort", "log", "makeLogRecord", "os", "re",
   "root", "setLogRecordFactory", "setLoggerClass", "shutdown", "sys", "threading", "time",
   "traceback", "warn", "warning", "warnings", "weakref"]

/-- What a word means; `none` if it means nothing. -/
def meaning? (word : String) : Option (Option Json) :=
  match valueWords.lookup word with
  | some v => some (some v)
  | none => if otherWords.contains word then some none else none

end BnfReader.Log
