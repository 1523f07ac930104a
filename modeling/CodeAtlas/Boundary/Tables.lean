/-!
# Tables of well-known packages

Which category of system boundary a package belongs to, by the beginning of its name, and which names belong to a language's own
library.
-/

namespace CodeAtlas.Boundary

/-- Categories of npm packages, by the beginning of the specifier. -/
def npmCategories : List (String × String) :=
  [("stripe", "payment"), ("braintree", "payment"), ("paypal", "payment"), ("@paypal", "payment"), ("@paddle", "payment"),
    ("razorpay", "payment"), ("pg", "database"), ("mysql2", "database"), ("mongoose", "database"),
    ("mongodb", "database"), ("@prisma", "database"), ("prisma", "database"), ("typeorm", "database"),
    ("drizzle-orm", "database"), ("knex", "database"), ("sequelize", "database"), ("arangojs", "database"),
    ("@supabase", "database"), ("better-sqlite3", "database"), ("sqlite3", "database"), ("neo4j-driver", "database"),
    ("ioredis", "cache"), ("redis", "cache"), ("memcached", "cache"), ("lru-cache", "cache"), ("amqplib", "messaging"),
    ("kafkajs", "messaging"), ("@aws-sdk/client-sqs", "messaging"), ("@aws-sdk/client-sns", "messaging"),
    ("bullmq", "messaging"), ("bull", "messaging"), ("@temporalio", "messaging"), ("passport", "auth"),
    ("better-auth", "auth"), ("jsonwebtoken", "auth"), ("jose", "auth"), ("@auth", "auth"), ("next-auth", "auth"),
    ("@clerk", "auth"), ("@aws-sdk", "cloud"), ("@google-cloud", "cloud"), ("@azure", "cloud"), ("firebase", "cloud"),
    ("firebase-admin", "cloud"), ("@sentry", "monitoring"), ("pino", "monitoring"), ("winston", "monitoring"),
    ("dd-trace", "monitoring"), ("@opentelemetry", "monitoring"), ("newrelic", "monitoring"), ("axios", "http-client"),
    ("node-fetch", "http-client"), ("undici", "http-client"), ("got", "http-client"), ("ky", "http-client"),
    ("@octokit", "http-client"), ("vitest", "testing"), ("jest", "testing"), ("mocha", "testing"),
    ("@playwright", "testing"), ("cypress", "testing"), ("supertest", "testing"), ("@testing-library", "testing"),
    ("react", "ui-framework"), ("react-dom", "ui-framework"), ("vue", "ui-framework"), ("@angular", "ui-framework"),
    ("svelte", "ui-framework"), ("next", "ui-framework"), ("nuxt", "ui-framework"), ("@ai-sdk", "ai-ml"), ("ai", "ai-ml"),
    ("openai", "ai-ml"), ("@anthropic-ai", "ai-ml"), ("@google/generative-ai", "ai-ml"), ("langchain", "ai-ml"),
    ("@langchain", "ai-ml"), ("llamaindex", "ai-ml")]

/-- Categories of Python packages, by the beginning of the specifier. -/
def pythonCategories : List (String × String) :=
  [("stripe", "payment"), ("braintree", "payment"), ("sqlalchemy", "database"), ("django.db", "database"),
    ("psycopg", "database"), ("psycopg2", "database"), ("asyncpg", "database"), ("pymongo", "database"),
    ("motor", "database"), ("neo4j", "database"), ("peewee", "database"), ("redis", "cache"), ("pymemcache", "cache"),
    ("celery", "messaging"), ("pika", "messaging"), ("kafka", "messaging"), ("confluent_kafka", "messaging"),
    ("aio_pika", "messaging"), ("jwt", "auth"), ("authlib", "auth"), ("msal", "auth"), ("passlib", "auth"),
    ("boto3", "cloud"), ("botocore", "cloud"), ("google.cloud", "cloud"), ("azure", "cloud"), ("requests", "http-client"),
    ("httpx", "http-client"), ("aiohttp", "http-client"), ("urllib3", "http-client"), ("sentry_sdk", "monitoring"),
    ("opentelemetry", "monitoring"), ("prometheus_client", "monitoring"), ("structlog", "monitoring"),
    ("pytest", "testing"), ("unittest", "testing"), ("hypothesis", "testing"), ("flask", "ui-framework"),
    ("django", "ui-framework"), ("fastapi", "ui-framework"), ("starlette", "ui-framework"), ("openai", "ai-ml"),
    ("anthropic", "ai-ml"), ("langchain", "ai-ml"), ("langchain_core", "ai-ml"), ("langgraph", "ai-ml"),
    ("transformers", "ai-ml"), ("torch", "ai-ml"), ("sklearn", "ai-ml")]

/-- Categories of Go modules, by the beginning of the specifier. -/
def goCategories : List (String × String) :=
  [("github.com/stripe", "payment"), ("gorm.io", "database"), ("github.com/jackc/pgx", "database"),
    ("github.com/lib/pq", "database"), ("github.com/go-sql-driver", "database"), ("go.mongodb.org", "database"),
    ("github.com/go-redis", "cache"), ("github.com/redis/go-redis", "cache"), ("github.com/nats-io", "messaging"),
    ("github.com/segmentio/kafka-go", "messaging"), ("github.com/rabbitmq", "messaging"),
    ("github.com/golang-jwt", "auth"), ("github.com/aws/aws-sdk-go", "cloud"), ("github.com/aws/aws-sdk-go-v2", "cloud"),
    ("cloud.google.com", "cloud"), ("github.com/getsentry/sentry-go", "monitoring"),
    ("go.opentelemetry.io", "monitoring"), ("go.uber.org/zap", "monitoring"), ("github.com/stretchr/testify", "testing"),
    ("github.com/gin-gonic", "ui-framework"), ("github.com/labstack/echo", "ui-framework"),
    ("github.com/gofiber", "ui-framework"), ("github.com/sashabaranov/go-openai", "ai-ml")]

/-- Categories of Java packages, by the beginning of the specifier. -/
def javaCategories : List (String × String) :=
  [("com.stripe", "payment"), ("org.hibernate", "database"), ("org.springframework.data", "database"),
    ("org.springframework.jdbc", "database"), ("redis.clients", "cache"), ("org.apache.kafka", "messaging"),
    ("com.rabbitmq", "messaging"), ("org.springframework.security", "auth"), ("io.jsonwebtoken", "auth"),
    ("software.amazon.awssdk", "cloud"), ("com.amazonaws", "cloud"), ("com.google.cloud", "cloud"),
    ("io.sentry", "monitoring"), ("io.opentelemetry", "monitoring"), ("org.slf4j", "monitoring"),
    ("okhttp3", "http-client"), ("org.apache.http", "http-client"), ("org.junit", "testing"), ("junit", "testing"),
    ("org.mockito", "testing"), ("org.springframework.web", "ui-framework"), ("org.springframework.boot", "ui-framework")]

/-- Categories of Rust crates, by the beginning of the specifier. -/
def rustCategories : List (String × String) :=
  [("stripe", "payment"), ("async_stripe", "payment"), ("sqlx", "database"), ("diesel", "database"),
    ("sea_orm", "database"), ("mongodb", "database"), ("redis", "cache"), ("lapin", "messaging"),
    ("rdkafka", "messaging"), ("jsonwebtoken", "auth"), ("aws_sdk_s3", "cloud"), ("aws_config", "cloud"),
    ("tracing", "monitoring"), ("sentry", "monitoring"), ("opentelemetry", "monitoring"), ("reqwest", "http-client"),
    ("hyper", "http-client"), ("mockall", "testing"), ("axum", "ui-framework"), ("actix_web", "ui-framework"),
    ("rocket", "ui-framework"), ("async_openai", "ai-ml")]

/-- Categories of Ruby gems, by the beginning of the specifier. -/
def rubyCategories : List (String × String) :=
  [("stripe", "payment"), ("active_record", "database"), ("pg", "database"), ("mongoid", "database"),
    ("sequel", "database"), ("redis", "cache"), ("dalli", "cache"), ("sidekiq", "messaging"), ("bunny", "messaging"),
    ("devise", "auth"), ("jwt", "auth"), ("omniauth", "auth"), ("aws-sdk", "cloud"), ("google/cloud", "cloud"),
    ("sentry-ruby", "monitoring"), ("faraday", "http-client"), ("httparty", "http-client"), ("net/http", "http-client"),
    ("rspec", "testing"), ("minitest", "testing"), ("rails", "ui-framework"), ("sinatra", "ui-framework"),
    ("openai", "ai-ml")]

/-- Categories of PHP namespaces, by the beginning of the specifier. -/
def phpCategories : List (String × String) :=
  [("Stripe", "payment"), ("Doctrine", "database"), ("Illuminate\\Database", "database"), ("Predis", "cache"),
    ("PhpAmqpLib", "messaging"), ("Firebase\\JWT", "auth"), ("Aws", "cloud"), ("Google\\Cloud", "cloud"),
    ("Sentry", "monitoring"), ("Monolog", "monitoring"), ("GuzzleHttp", "http-client"), ("PHPUnit", "testing"),
    ("Illuminate", "ui-framework"), ("Symfony", "ui-framework"), ("OpenAI", "ai-ml")]

/-- Categories of C# namespaces, by the beginning of the specifier. -/
def csharpCategories : List (String × String) :=
  [("Stripe", "payment"), ("Microsoft.EntityFrameworkCore", "database"), ("Dapper", "database"), ("Npgsql", "database"),
    ("MongoDB", "database"), ("StackExchange.Redis", "cache"), ("MassTransit", "messaging"), ("RabbitMQ", "messaging"),
    ("Confluent.Kafka", "messaging"), ("Microsoft.AspNetCore.Authentication", "auth"), ("Microsoft.Identity", "auth"),
    ("Amazon", "cloud"), ("Azure", "cloud"), ("Google.Cloud", "cloud"), ("Sentry", "monitoring"),
    ("Serilog", "monitoring"), ("OpenTelemetry", "monitoring"), ("System.Net.Http", "http-client"),
    ("RestSharp", "http-client"), ("Xunit", "testing"), ("NUnit", "testing"), ("Moq", "testing"),
    ("Microsoft.AspNetCore", "ui-framework"), ("OpenAI", "ai-ml")]

/-- Modules that come with the JavaScript runtime. -/
def nodeBuiltins : List String :=
  ["assert", "buffer", "child_process", "cluster", "crypto", "dgram", "dns", "events", "fs", "http", "http2", "https",
    "net", "os", "path", "perf_hooks", "process", "querystring", "readline", "stream", "string_decoder", "timers", "tls",
    "url", "util", "v8", "vm", "worker_threads", "zlib"]

/-- Crates that come with the Rust compiler. -/
def rustBuiltins : List String :=
  ["alloc", "core", "proc_macro", "std", "test"]

/-- Libraries that come with Ruby. -/
def rubyLibrary : List String :=
  ["English", "benchmark", "csv", "date", "digest", "erb", "fileutils", "forwardable", "json", "logger", "open3",
    "optparse", "pathname", "securerandom", "set", "singleton", "socket", "stringio", "tempfile", "time", "uri", "yaml"]

/-- Namespaces of the C# base library. -/
def csharpRoots : List String :=
  ["System", "Microsoft.Extensions", "Microsoft.CSharp"]

/-- Headers of the C library. -/
def cHeaders : List String :=
  ["assert.h", "ctype.h", "errno.h", "fcntl.h", "float.h", "limits.h", "locale.h", "math.h", "pthread.h", "setjmp.h",
    "signal.h", "stdarg.h", "stdbool.h", "stddef.h", "stdint.h", "stdio.h", "stdlib.h", "string.h", "time.h", "unistd.h"]

/-- Modules that come with Python. -/
def pythonModules : List String :=
  ["__future__", "_abc", "_aix_support", "_ast", "_asyncio", "_bisect", "_blake2", "_bootsubprocess", "_bz2", "_codecs",
    "_codecs_cn", "_codecs_hk", "_codecs_iso2022", "_codecs_jp", "_codecs_kr", "_codecs_tw", "_collections",
    "_collections_abc", "_compat_pickle", "_compression", "_contextvars", "_crypt", "_csv", "_ctypes", "_curses",
    "_curses_panel", "_datetime", "_dbm", "_decimal", "_elementtree", "_frozen_importlib", "_frozen_importlib_external",
    "_functools", "_gdbm", "_hashlib", "_heapq", "_imp", "_io", "_json", "_locale", "_lsprof", "_lzma", "_markupbase",
    "_md5", "_msi", "_multibytecodec", "_multiprocessing", "_opcode", "_operator", "_osx_support", "_overlapped",
    "_pickle", "_posixshmem", "_posixsubprocess", "_py_abc", "_pydecimal", "_pyio", "_queue", "_random", "_scproxy",
    "_sha1", "_sha256", "_sha3", "_sha512", "_signal", "_sitebuiltins", "_socket", "_sqlite3", "_sre", "_ssl", "_stat",
    "_statistics", "_string", "_strptime", "_struct", "_symtable", "_thread", "_threading_local", "_tkinter", "_tokenize",
    "_tracemalloc", "_typing", "_uuid", "_warnings", "_weakref", "_weakrefset", "_winapi", "_zoneinfo", "abc", "aifc",
    "antigravity", "argparse", "array", "ast", "asynchat", "asyncio", "asyncore", "atexit", "audioop", "base64", "bdb",
    "binascii", "bisect", "builtins", "bz2", "cProfile", "calendar", "cgi", "cgitb", "chunk", "cmath", "cmd", "code",
    "codecs", "codeop", "collections", "colorsys", "compileall", "concurrent", "configparser", "contextlib",
    "contextvars", "copy", "copyreg", "crypt", "csv", "ctypes", "curses", "dataclasses", "datetime", "dbm", "decimal",
    "difflib", "dis", "distutils", "doctest", "email", "encodings", "ensurepip", "enum", "errno", "faulthandler", "fcntl",
    "filecmp", "fileinput", "fnmatch", "fractions", "ftplib", "functools", "gc", "genericpath", "getopt", "getpass",
    "gettext", "glob", "graphlib", "grp", "gzip", "hashlib", "heapq", "hmac", "html", "http", "idlelib", "imaplib",
    "imghdr", "imp", "importlib", "inspect", "io", "ipaddress", "itertools", "json", "keyword", "lib2to3", "linecache",
    "locale", "logging", "lzma", "mailbox", "mailcap", "marshal", "math", "mimetypes", "mmap", "modulefinder", "msilib",
    "msvcrt", "multiprocessing", "netrc", "nis", "nntplib", "nt", "ntpath", "nturl2path", "numbers", "opcode", "operator",
    "optparse", "os", "ossaudiodev", "pathlib", "pdb", "pickle", "pickletools", "pipes", "pkgutil", "platform",
    "plistlib", "poplib", "posix", "posixpath", "pprint", "profile", "pstats", "pty", "pwd", "py_compile", "pyclbr",
    "pydoc", "pydoc_data", "pyexpat", "queue", "quopri", "random", "re", "readline", "reprlib", "resource", "rlcompleter",
    "runpy", "sched", "secrets", "select", "selectors", "shelve", "shlex", "shutil", "signal", "site", "smtpd", "smtplib",
    "sndhdr", "socket", "socketserver", "spwd", "sqlite3", "sre_compile", "sre_constants", "sre_parse", "ssl", "stat",
    "statistics", "string", "stringprep", "struct", "subprocess", "sunau", "symtable", "sys", "sysconfig", "syslog",
    "tabnanny", "tarfile", "telnetlib", "tempfile", "termios", "textwrap", "this", "threading", "time", "timeit",
    "tkinter", "token", "tokenize", "tomllib", "trace", "traceback", "tracemalloc", "tty", "turtle", "turtledemo",
    "types", "typing", "unicodedata", "unittest", "urllib", "uu", "uuid", "venv", "warnings", "wave", "weakref",
    "webbrowser", "winreg", "winsound", "wsgiref", "xdrlib", "xml", "xmlrpc", "zipapp", "zipfile", "zipimport", "zlib",
    "zoneinfo"]

end CodeAtlas.Boundary
